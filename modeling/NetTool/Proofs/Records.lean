import NetTool.Proofs.Dispatch
import NetTool.Proofs.Gateway
import NetTool.Proofs.NewAddr
import NetTool.Proofs.SizeWalk

/-!
# The records of addresses and routes

Complete attributes end where their message does, so the unsigned walks of `parse_ifa_msg` and
`parse_rt_msg` meet just these (`size_walk_of_holds`), and both print the addresses in the order of
the attributes, each from its own bytes. `parse_nl_msg_gateway` prints one record for each route
before the first end mark of a datagram (`records_print`).
-/

namespace NetTool

open Bytes CInt Frames Loop

/-! ## Messages with addresses -/

/-- The attributes that `parse_ifa_msg` prints, with their formats. -/
def ifaFormats : List (ℕ × String) :=
  [(IFA_ADDRESS, "%-15s  "), (IFA_LOCAL, "%-15s  "), (IFA_BROADCAST, "%-15s")]

/-- The attributes that `parse_rt_msg` prints. -/
def rtFormats : List (ℕ × String) := [(RTA_GATEWAY, "gateway:\t%s\n")]

/-- What is to be printed of an attribute. -/
def addressLines (c : Libc) (fmts : List (ℕ × String)) (a : Rta) : List Ev :=
  (fmts.filter fun f => f.1 = a.type).map fun f => .printf f.2 [.str (c.ntop a.payload)]

/-- The family is one with addresses, and those that are printed are of its size. -/
def OfFamily (family : ℕ) (fmts : List (ℕ × String)) (as : List Rta) : Prop :=
  (family = AF_INET ∨ family = AF_INET6) ∧
    ∀ a ∈ as, (∃ f ∈ fmts, f.1 = a.type) → a.payload.length = addrSize family

/-- A complete message with `n` bytes in front of its attributes. -/
structure Recorded (n : ℕ) (fmts : List (ℕ × String)) where
  msg : Msg
  attrs : List Rta
  long : NLMSG_LENGTH n ≤ msg.bytes.length
  body : msg.bytes.drop (NLMSG_LENGTH n) = Format.encode attrs
  addresses : OfFamily (get8 (ofList msg.bytes) (NLMSG_DATA 0)) fmts attrs

abbrev AddrRecord := Recorded 8 ifaFormats

abbrev RouteRecord := Recorded 12 rtFormats

def Recorded.lines {n : ℕ} {fmts : List (ℕ × String)} (c : Libc) (x : Recorded n fmts) : List Ev :=
  x.attrs.flatMap (addressLines c fmts)

section Attributes

variable {c : Libc} {m : Mem} {o p family : ℕ} {a : Rta} {fmts : List (ℕ × String)}

theorem print_address_of_holds (h : Format.Holds m p a)
    (hf : family = AF_INET ∨ family = AF_INET6) {f : ℕ × String}
    (hl : f.1 = a.type → a.payload.length = addrSize family) (s : String × List Ev) :
    (print_address c family m p f.1 f.2 s).2 = s.2 ++ addressLines c [f] a := by
  unfold print_address addressLines
  rw [Rta.type_of_holds h]
  by_cases ht : f.1 = a.type
  · rw [if_pos ht.symm, util_ntop, inet_ntop_of_whole h hf (hl ht), List.filter_cons_of_pos (by simpa)]
    rfl
  · rw [if_neg (Ne.symm ht), List.filter_cons_of_neg (by simpa)]
    exact (List.append_nil _).symm

theorem print_addresses_of_holds (h : Format.Holds m p a)
    (hf : family = AF_INET ∨ family = AF_INET6) : ∀ (fmts : List (ℕ × String)) (s : String × List Ev),
      ((∃ f ∈ fmts, f.1 = a.type) → a.payload.length = addrSize family) →
        (fmts.foldl (fun s f => print_address c family m p f.1 f.2 s) s).2 =
          s.2 ++ addressLines c fmts a
  | [], s, _ => (List.append_nil _).symm
  | f :: fmts, s, hl => by
    have h1 := print_address_of_holds (c := c) h hf (f := f)
      (fun ht => hl ⟨f, List.mem_cons_self, ht⟩) s
    have ih := print_addresses_of_holds h hf fmts (print_address c family m p f.1 f.2 s)
      fun ⟨f', hf', ht⟩ => hl ⟨f', List.mem_cons_of_mem _ hf', ht⟩
    have hsplit : addressLines c (f :: fmts) a = addressLines c [f] a ++ addressLines c fmts a := by
      rw [addressLines, addressLines, addressLines, ← List.map_append, ← List.filter_append]
      rfl
    rw [List.foldl_cons, ih, h1, hsplit, List.append_assoc]

/-- The loop of a printer prints what the attributes have, one after the other. -/
theorem print_fold {ps : List ℕ} {as : List Rta} (h : List.Forall₂ (Format.Holds m) ps as)
    (hfam : OfFamily family fmts as) : ∀ s : String × List Ev,
      (ps.foldl (fun s p => fmts.foldl (fun s f => print_address c family m p f.1 f.2 s) s) s).2 =
        s.2 ++ as.flatMap (addressLines c fmts) := by
  obtain ⟨hf, hl⟩ := hfam
  induction h with
  | nil => exact fun s => (List.append_nil _).symm
  | @cons p a ps as hp _ ih =>
    intro s
    rw [List.foldl_cons, ih fun b hb => hl b (List.mem_cons_of_mem _ hb),
      print_addresses_of_holds hp hf fmts s (hl a List.mem_cons_self), List.flatMap_cons,
      List.append_assoc]

end Attributes

/-! ## One record -/

section Record

variable {c : Libc} {m : Mem} {o fuel : ℕ} {ip : String}

/-- The unsigned walk over complete attributes meets them and nothing behind them. -/
theorem size_walk_of_holds {n : ℕ} (hn : n = 8 ∨ n = 12) {f : Msg} {as : List Rta}
    (h : Format.Holds m o f) (hlong : NLMSG_LENGTH n ≤ f.bytes.length)
    (hbody : f.bytes.drop (NLMSG_LENGTH n) = Format.encode as) (hs : f.bytes.length < 2 ^ 31 - 4)
    (hf : f.bytes.length < fuel) :
    List.Forall₂ (Format.Holds m) (size_walk fuel m o n).1 as := by
  obtain ⟨hlen, hslice, hholds⟩ := Msg.attributes_of_holds h hlong hbody
  have hd : NLMSG_DATA o + n = o + NLMSG_LENGTH n := by
    unfold NLMSG_DATA NLMSG_LENGTH
    omega
  have henc : f.bytes.length - NLMSG_LENGTH n = (Format.encode as).length := by
    rw [← hbody, List.length_drop]
  have hstop := Format.stop_encode as _ hslice
  have hesc : ¬ Escapes m o n := by
    unfold Escapes
    rw [hlen, if_pos (by omega), hd, henc, hstop]
    omega
  have hle : NLMSG_LENGTH n ≤ 4096 := by
    unfold NLMSG_LENGTH
    omega
  rw [(((visitsSame_iff hn).2 hesc) fuel).1, int_walk, payload_eq hn, i32_u64, hd,
    payload_walk (by omega) (by omega) hle]
  exact hholds

theorem parse_ifa_msg_prints (x : AddrRecord) (h : Format.Holds m o x.msg)
    (hs : x.msg.bytes.length < 2 ^ 31 - 4) (hf : x.msg.bytes.length < fuel) :
    (parse_ifa_msg c fuel ip m (NLMSG_DATA o) (IFA_RTA (NLMSG_DATA o)) (NLMSG_PAYLOAD m o 8)).2 =
      (ifa_lines c x.msg.ifa ("", x.lines c)).2 := by
  have hwalk := size_walk_of_holds (.inl rfl) h x.long x.body hs hf
  have hfold := print_fold (c := c) hwalk x.addresses (ip, [])
  rw [parse_ifa_msg_eq, Msg.ifa_of_holds h x.long]
  unfold ifa_lines
  exact congrArg (fun out => _ ++ out ++ _) hfold

theorem parse_rt_msg_prints (x : RouteRecord) (h : Format.Holds m o x.msg)
    (hs : x.msg.bytes.length < 2 ^ 31 - 4) (hf : x.msg.bytes.length < fuel) :
    (parse_rt_msg c fuel ip m (NLMSG_DATA o) (RTM_RTA (NLMSG_DATA o)) (NLMSG_PAYLOAD m o 12)).2 =
      (rt_lines x.msg.rt ("", x.lines c)).2 := by
  have hwalk := size_walk_of_holds (.inr rfl) h x.long x.body hs hf
  have hfold := print_fold (c := c) hwalk x.addresses (ip, [])
  rw [parse_rt_msg_eq, Msg.rt_of_holds h x.long]
  unfold rt_lines
  exact congrArg (fun out => _ ++ out) hfold

end Record

/-! ## A dump of routes -/

/-- A message of a dump of routes. -/
inductive RouteItem
  | route (x : RouteRecord) (h : x.msg.type = RTM_NEWROUTE)
  | other (f : Msg) (h : f.type ≠ RTM_NEWROUTE)

namespace RouteItem

def msg : RouteItem → Msg
  | route x _ => x.msg
  | other f _ => f

/-- The record of a route, and nothing for any other message. -/
def lines (c : Libc) : RouteItem → List Ev
  | route x _ => (rt_lines x.msg.rt ("", x.lines c)).2
  | other _ _ => []

def ends (i : RouteItem) : Bool := i.msg.type = NLMSG_DONE ∨ i.msg.type = NLMSG_ERROR

end RouteItem

/-- What is to be printed of a datagram: the records before the first end mark, and that the mark
is an error. -/
def dumpLines (c : Libc) (items : List RouteItem) : List Ev :=
  (items.takeWhile fun i => ¬ i.ends).flatMap (RouteItem.lines c) ++
    if (items.find? RouteItem.ends).map (fun i => i.msg.type) = some NLMSG_ERROR then
      [.printf "error" []]
    else []

section Dump

variable {c : Libc} {n : ℕ} {m : Mem}

theorem dumpLines_of_ends {i : RouteItem} (h : i.ends = true) (items : List RouteItem) :
    dumpLines c (i :: items) =
      if i.msg.type = NLMSG_ERROR then [.printf "error" []] else [] := by
  rw [dumpLines, List.takeWhile_cons_of_neg (by simp [h]), List.find?_cons_of_pos h]
  simp

theorem dumpLines_of_not_ends {i : RouteItem} (h : i.ends = false) (items : List RouteItem) :
    dumpLines c (i :: items) = i.lines c ++ dumpLines c items := by
  rw [dumpLines, List.takeWhile_cons_of_pos (by simp [h]), List.find?_cons_of_neg (by simp [h]),
    List.flatMap_cons, List.append_assoc]
  rfl

/-- The record of a message that ends nothing. -/
theorem gateway_record (i : RouteItem) {o : ℕ} (h : Format.Holds m o i.msg)
    (hs : i.msg.bytes.length ≤ BUFLEN) (hn : BUFLEN < n) (s : String × List Ev) :
    (if i.msg.type = RTM_NEWROUTE then
      ((parse_rt_msg c n s.1 m (NLMSG_DATA o) (RTM_RTA (NLMSG_DATA o)) (NLMSG_PAYLOAD m o 12)).1,
        s.2 ++ (parse_rt_msg c n s.1 m (NLMSG_DATA o) (RTM_RTA (NLMSG_DATA o))
          (NLMSG_PAYLOAD m o 12)).2)
      else s).2 = s.2 ++ i.lines c := by
  have hb : BUFLEN = 4096 := rfl
  cases i with
  | route x hx =>
    have hs' : x.msg.bytes.length ≤ BUFLEN := hs
    rw [show (RouteItem.route x hx).msg = x.msg from rfl, if_pos hx]
    exact congrArg (s.2 ++ ·) (parse_rt_msg_prints x h (by omega) (by omega))
  | other f hx =>
    rw [show (RouteItem.other f hx).msg = f from rfl, if_neg hx]
    exact (List.append_nil _).symm

theorem gatewayLoop_prints (hn : BUFLEN < n) : ∀ (items : List RouteItem) {fuel o : ℕ}
    (s : String × List Ev),
    slice m o (Format.encode (items.map RouteItem.msg)).length =
      Format.encode (items.map RouteItem.msg) →
    (Format.encode (items.map RouteItem.msg)).length ≤ BUFLEN →
    (Format.encode (items.map RouteItem.msg)).length < fuel →
      (gatewayLoop c n m fuel (o, ((Format.encode (items.map RouteItem.msg)).length : ℤ)) s).2.2 =
        s.2 ++ dumpLines c items
  | [], fuel + 1, o, s, _, _, _ => by
    have hno : ¬ (NLMSG_OK m o (u32 (0 : ℕ)) = true ∧ nlmsg_type m o ≠ NLMSG_DONE) := by
      rw [NLMSG_OK_iff]
      exact fun h => Format.not_ok_of_lt (by decide) h.1
    rw [gatewayLoop]
    dsimp only
    rw [List.map_nil, show (Format.encode ([] : List Msg)).length = 0 from rfl, if_neg hno]
    exact (List.append_nil _).symm
  | i :: items, fuel + 1, o, s, h, hl, hf => by
    have hb : BUFLEN = 4096 := rfl
    rw [List.map_cons] at h hl hf ⊢
    obtain ⟨hi, hok, hrest⟩ := Format.holds_head h
    have hlen : nlmsg_len m o = i.msg.bytes.length := by rw [← netlink_lenAt, hi.lenAt]
    have hlong := i.msg.long
    have hh : netlink.hdr = 16 := rfl
    have hpad := netlink.le_pad i.msg.bytes.length
    have hsplit := Format.length_encode_cons i.msg (items.map RouteItem.msg)
    generalize hL : (Format.encode (i.msg :: items.map RouteItem.msg)).length = L at h hl hf hok hsplit ⊢
    have hu : (u32 (L : ℤ) : ℤ) = L := by
      rw [u32_of_mem (by omega) (by omega)]
    have hyes : NLMSG_OK m o (u32 (L : ℤ)) = true := by
      rw [hu, NLMSG_OK_iff, Int.toNat_natCast]
      exact hok
    rw [gatewayLoop]
    dsimp only
    rw [Msg.type_of_holds hi]
    by_cases hd : i.msg.type = NLMSG_DONE
    · have hends : i.ends = true := by simp [RouteItem.ends, hd]
      rw [if_neg (fun hx => hx.2 hd), dumpLines_of_ends hends, if_neg (by rw [hd]; decide)]
      exact (List.append_nil _).symm
    by_cases he : i.msg.type = NLMSG_ERROR
    · have hends : i.ends = true := by simp [RouteItem.ends, he]
      rw [if_pos ⟨hyes, hd⟩, if_pos he, dumpLines_of_ends hends, if_pos he]
    · have hends : i.ends = false := by simp [RouteItem.ends, hd, he]
      have hnext : NLMSG_NEXT (fun x => u64 x) m (o, (L : ℤ)) =
          (o + netlink.pad i.msg.bytes.length,
            ((Format.encode (items.map RouteItem.msg)).length : ℤ)) := by
        rw [NLMSG_NEXT]
        dsimp only
        rw [hlen, NLMSG_ALIGN_eq (by omega), u64_of_mem (by omega) (by omega), hsplit]
        simp
      rw [if_pos ⟨hyes, hd⟩, if_neg he, hnext, gatewayLoop_prints hn items _ hrest (by omega) (by omega),
        gateway_record i hi (by omega) hn, dumpLines_of_not_ends hends, List.append_assoc]

/-- The record of an address has the addresses of its message, each from its own bytes and in
their order; a dump of routes has one record for each route before its first end mark. -/
theorem records_print {fuel : ℕ} (hf : BUFLEN < fuel) (ip : String) :
    (∀ (x : AddrRecord) (o : ℕ), Format.Holds m o x.msg → x.msg.bytes.length ≤ BUFLEN →
      (parse_ifa_msg c fuel ip m (NLMSG_DATA o) (IFA_RTA (NLMSG_DATA o)) (NLMSG_PAYLOAD m o 8)).2 =
        (ifa_lines c x.msg.ifa ("", x.lines c)).2) ∧
      ∀ (items : List RouteItem) (o : ℕ),
        slice m o (Format.encode (items.map RouteItem.msg)).length =
          Format.encode (items.map RouteItem.msg) →
        (Format.encode (items.map RouteItem.msg)).length ≤ BUFLEN →
          (parse_nl_msg_gateway c fuel ip m o
            (Format.encode (items.map RouteItem.msg)).length).2.2 = dumpLines c items := by
  have hb : BUFLEN = 4096 := rfl
  exact ⟨fun x o h hs => parse_ifa_msg_prints x h (by omega) (by omega),
    fun items o h hl => gatewayLoop_prints hf items (ip, []) h hl (by omega)⟩

end Dump

/-- A default route over 192.168.1.1. -/
def defaultRoute : RouteRecord where
  msg := {
    bytes := [36, 0, 0, 0, 24, 0, 0, 0, 0, 0, 0, 0, 0, 0, 0, 0, 2, 0, 0, 0, 254, 4, 0, 1, 0, 0, 0, 0] ++
      Format.encode [Rta.inet 5 1]
    padding := []
    long := by decide
    len_eq := by decide
    padded := by decide }
  attrs := [.inet 5 1]
  long := by decide
  body := by decide
  addresses := by
    refine ⟨by decide, fun a ha _ => ?_⟩
    rw [List.mem_singleton.1 ha]
    decide

/-- The route is printed, and the end mark ends the record. -/
theorem defaultRoute_prints : BUFLEN < 4097 ∧
    (parse_nl_msg_gateway Libc.texts 4097 "" (ofList (Format.encode [defaultRoute.msg, Msg.header 3]))
      0 52).2.2 = dumpLines Libc.texts
        [.route defaultRoute (by decide), .other (.header 3) (by decide)] :=
  ⟨by decide, (@records_print Libc.texts (ofList (Format.encode [defaultRoute.msg, Msg.header 3])) 4097
    (by decide) "").2 [.route defaultRoute (by decide), .other (.header 3) (by decide)] 0
      (slice_overlay _ _) (by decide)⟩

end NetTool
