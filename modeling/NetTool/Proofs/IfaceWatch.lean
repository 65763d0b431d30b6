import NetTool.IfaceWatch
import NetTool.Proofs.NewAddr
import NetTool.Proofs.Dispatch

/-!
# Which groups the interface watch joins and leaves

The remaining length is signed here, so the loop keeps to the datagram (`watch_walk`) and returns
for all of them. Of complete messages, each one about an address before the first end mark leads to
at most one call: for the first interface that has its address, its name or its index, over the
socket of its family (`ProcessInterfaceWatch_calls`).
-/

namespace NetTool

open Bytes CInt Frames Loop

/-! ## Messages about addresses -/

/-- The text of an address of the family. -/
def addressText (c : Libc) (family : ℕ) (a : Rta) : String :=
  if family = AF_INET ∨ family = AF_INET6 then c.ntop a.payload else ""

/-- A message about an address with its attributes: its addresses are of its family, and its name
ends before the 16th byte. -/
structure AddrChange where
  msg : Msg
  attrs : List Rta
  kind : msg.type = RTM_NEWADDR ∨ msg.type = RTM_DELADDR
  long : 24 ≤ msg.bytes.length
  body : msg.bytes.drop 24 = Format.encode attrs
  addresses : ∀ a ∈ attrs, a.type = IFA_ADDRESS →
    msg.ifa.ifa_family = AF_INET ∨ msg.ifa.ifa_family = AF_INET6 →
      a.payload.length = addrSize msg.ifa.ifa_family
  labels : ∀ a ∈ attrs, a.type = IFA_LABEL → ∃ k < 16, a.payload[k]? = some 0

namespace AddrChange

/-- The last address of it. -/
def address (c : Libc) (x : AddrChange) : String :=
  ((x.attrs.filter fun a => a.type = IFA_ADDRESS).getLast?.map
    (addressText c x.msg.ifa.ifa_family)).getD ""

/-- The last name of it. -/
def ifname (x : AddrChange) : List UInt8 :=
  ((x.attrs.filter fun a => a.type = IFA_LABEL).getLast?.map
    fun a => a.payload.takeWhile (· ≠ 0)).getD []

/-- The interface has its address, its name or its index. -/
def concerns (c : Libc) (x : AddrChange) (lan_addr : lan_addr_s) : Bool :=
  x.address c = lan_addr.str ∨ x.ifname = lan_addr.ifname ∨ x.msg.ifa.ifa_index = lan_addr.index

/-- The call it leads to. -/
def call (c : Libc) (lan_addrs : List lan_addr_s) (s_ssdp s_ssdp6 : ℤ) (x : AddrChange) :
    Option WatchEv :=
  (lan_addrs.find? (x.concerns c)).bind fun lan_addr =>
    if x.msg.ifa.ifa_family = AF_INET then
      some (.AddDropMulticastMembership s_ssdp lan_addr false (x.msg.type = RTM_DELADDR))
    else if x.msg.ifa.ifa_family = AF_INET6 then
      some (.AddDropMulticastMembership s_ssdp6 lan_addr true (x.msg.type = RTM_DELADDR))
    else none

end AddrChange

/-- A message of a datagram, about an address or not. -/
inductive WatchItem
  | change (x : AddrChange)
  | other (f : Msg) (h : f.type ≠ RTM_NEWADDR ∧ f.type ≠ RTM_DELADDR)

namespace WatchItem

def msg : WatchItem → Msg
  | change x => x.msg
  | other f _ => f

def call (c : Libc) (lan_addrs : List lan_addr_s) (s_ssdp s_ssdp6 : ℤ) :
    WatchItem → Option WatchEv
  | change x => x.call c lan_addrs s_ssdp s_ssdp6
  | other _ _ => none

/-- The messages before the first end mark. -/
def beforeDone (items : List WatchItem) : List WatchItem :=
  items.takeWhile fun i => i.msg.type ≠ NLMSG_DONE

end WatchItem

def WatchEv.isCall : WatchEv → Bool
  | .AddDropMulticastMembership _ _ _ _ => true
  | _ => false

/-! ## The attributes -/

section Attributes

variable {g : Globals} {c : Libc} {m : Mem} {p o family fuel : ℕ} {a : Rta}

theorem inet_ntop_of_holds (h : Format.Holds m p a)
    (hl : family = AF_INET ∨ family = AF_INET6 → a.payload.length = addrSize family) :
    (c.inet_ntop family m (RTA_DATA p)).getD "" = addressText c family a := by
  unfold addressText
  by_cases hf : family = AF_INET ∨ family = AF_INET6
  · rw [if_pos hf, inet_ntop_of_whole h hf (hl hf)]
    rfl
  · have hno : c.inet_ntop family m (RTA_DATA p) = none := by
      rw [Libc.inet_ntop, if_neg fun h4 => hf (.inl h4), if_neg fun h6 => hf (.inr h6)]
    rw [if_neg hf, hno]
    rfl

theorem watch_attribute_of_holds (h : Format.Holds m p a)
    (haddr : a.type = IFA_ADDRESS →
      family = AF_INET ∨ family = AF_INET6 → a.payload.length = addrSize family)
    (hlabel : a.type = IFA_LABEL → ∃ k < 16, a.payload[k]? = some 0) (s : WatchAddr) :
    (watch_attribute g c family m p s).address =
        (if a.type = IFA_ADDRESS then addressText c family a else s.address) ∧
      (watch_attribute g c family m p s).ifname =
        (if a.type = IFA_LABEL then a.payload.takeWhile (· ≠ 0) else s.ifname) ∧
      (watch_attribute g c family m p s).out.filter WatchEv.isCall =
        s.out.filter WatchEv.isCall := by
  unfold watch_attribute
  dsimp only
  rw [Rta.type_of_holds h, List.filter_append]
  by_cases ha : a.type = IFA_ADDRESS
  · have hl : ¬ a.type = IFA_LABEL := by rw [ha]; simp [IFA_ADDRESS, IFA_LABEL]
    rw [if_pos ha, if_pos ha, if_neg hl, inet_ntop_of_holds h (haddr ha)]
    exact ⟨rfl, rfl, List.append_nil _⟩
  · rw [if_neg ha, if_neg ha]
    by_cases hl : a.type = IFA_LABEL
    · obtain ⟨k, hk, h0⟩ := hlabel hl
      rw [if_pos hl, if_pos hl, Rta.strncpy_text_of_holds h h0 hk (by omega)]
      exact ⟨rfl, rfl, List.append_nil _⟩
    · rw [if_neg hl, if_neg hl]
      exact ⟨rfl, rfl, List.append_nil _⟩

theorem watch_fold {ps : List ℕ} {as : List Rta} (h : List.Forall₂ (Format.Holds m) ps as)
    (haddr : ∀ a ∈ as, a.type = IFA_ADDRESS →
      family = AF_INET ∨ family = AF_INET6 → a.payload.length = addrSize family)
    (hlabel : ∀ a ∈ as, a.type = IFA_LABEL → ∃ k < 16, a.payload[k]? = some 0) : ∀ s : WatchAddr,
      (ps.foldl (fun s p => watch_attribute g c family m p s) s).address =
          as.foldl (fun x a => if decide (a.type = IFA_ADDRESS) then addressText c family a else x)
            s.address ∧
        (ps.foldl (fun s p => watch_attribute g c family m p s) s).ifname =
          as.foldl (fun x a => if decide (a.type = IFA_LABEL) then
            a.payload.takeWhile (· ≠ 0) else x) s.ifname ∧
        (ps.foldl (fun s p => watch_attribute g c family m p s) s).out.filter WatchEv.isCall =
          s.out.filter WatchEv.isCall := by
  induction h with
  | nil => exact fun s => ⟨rfl, rfl, rfl⟩
  | @cons p a ps as hp _ ih =>
    intro s
    obtain ⟨h1, h2, h3⟩ := watch_attribute_of_holds (g := g) (c := c) hp
      (haddr a List.mem_cons_self) (hlabel a List.mem_cons_self) s
    obtain ⟨h4, h5, h6⟩ := ih (fun b hb => haddr b (List.mem_cons_of_mem _ hb))
      (fun b hb => hlabel b (List.mem_cons_of_mem _ hb)) (watch_attribute g c family m p s)
    simp only [List.foldl_cons, h4, h5, h6, h1, h2, h3, decide_eq_true_eq, and_self]

end Attributes

/-! ## One message -/

section Message

variable {g : Globals} {c : Libc} {fuel : ℕ} {lan_addrs : List lan_addr_s} {s_ssdp s_ssdp6 : ℤ}
  {m : Mem} {o : ℕ}

theorem watch_membership_calls (ifa : ifaddrmsg) (address : String) (ifname : List UInt8)
    (is_del : Bool) :
    (watch_membership lan_addrs s_ssdp s_ssdp6 ifa address ifname is_del).filter WatchEv.isCall =
      watch_membership lan_addrs s_ssdp s_ssdp6 ifa address ifname is_del := by
  unfold watch_membership
  split
  · rfl
  · split_ifs <;> rfl

theorem watch_membership_call (x : AddrChange) :
    watch_membership lan_addrs s_ssdp s_ssdp6 x.msg.ifa (x.address c) x.ifname
      (x.msg.type = RTM_DELADDR) = (x.call c lan_addrs s_ssdp s_ssdp6).toList := by
  have hp : (fun lan_addr : lan_addr_s => decide (x.address c = lan_addr.str ∨
      x.ifname = lan_addr.ifname ∨ x.msg.ifa.ifa_index = lan_addr.index)) = x.concerns c := rfl
  unfold watch_membership AddrChange.call
  rw [hp]
  rcases lan_addrs.find? (x.concerns c) with _ | lan_addr
  · rfl
  · rw [Option.bind_some]
    dsimp only
    split_ifs <;> rfl

theorem watch_address_calls (x : AddrChange) (h : Format.Holds m o x.msg)
    (hshort : nlmsg_len m o < 2 ^ 31 - 4) (hf : nlmsg_len m o < fuel) :
    (watch_address g c fuel lan_addrs s_ssdp s_ssdp6 m o (x.msg.type = RTM_DELADDR)).filter
      WatchEv.isCall = (x.call c lan_addrs s_ssdp s_ssdp6).toList := by
  have hlong := x.long
  obtain ⟨-, -, hholds⟩ := Msg.attributes_of_holds h hlong x.body
  have hifa := Msg.ifa_of_holds h hlong
  have hloop : ∀ family, (forLoop (fun t => RTA_OK m t.1 t.2) (RTA_NEXT i32 m)
      (fun t s => (watch_attribute g c family m t.1 s, (none : Option Unit))) fuel
      (IFA_RTA (NLMSG_DATA o), i32 (NLMSG_PAYLOAD m o 8)) ⟨"", [], []⟩).1 =
      (attributes m o 24).foldl (fun s p => watch_attribute g c family m p s) ⟨"", [], []⟩ := by
    intro family
    refine (rta_loop_foldl fuel m _ (fun s p => watch_attribute g c family m p s) _ _).trans ?_
    rw [← newaddr_walk, newaddr_walk_eq hshort hf]
    rfl
  obtain ⟨h1, h2, h3⟩ := watch_fold (g := g) (c := c) hholds x.addresses x.labels ⟨"", [], []⟩
  rw [foldl_last] at h1 h2
  unfold watch_address
  dsimp only
  rw [hifa, hloop, h1, h2, List.filter_append, List.filter_cons_of_neg (by simp [WatchEv.isCall]), h3,
    List.filter_cons_of_neg (by simp [WatchEv.isCall]), watch_membership_calls]
  exact watch_membership_call x

theorem watch_message_calls (i : WatchItem) (h : Format.Holds m o i.msg)
    (hshort : nlmsg_len m o < 2 ^ 31 - 4) (hf : nlmsg_len m o < fuel)
    (hd : i.msg.type ≠ NLMSG_DONE) (out : List WatchEv) :
    (watch_message g c fuel lan_addrs s_ssdp s_ssdp6 m o out).2 = none ∧
      (watch_message g c fuel lan_addrs s_ssdp s_ssdp6 m o out).1.filter WatchEv.isCall =
        out.filter WatchEv.isCall ++ (i.call c lan_addrs s_ssdp s_ssdp6).toList := by
  unfold watch_message
  dsimp only
  rw [Msg.type_of_holds h, if_neg hd]
  cases i with
  | change x =>
    have hcalls := @watch_address_calls g c fuel lan_addrs s_ssdp s_ssdp6 m o x h hshort hf
    rcases x.kind with hk | hk
    · have hne : ¬ x.msg.type = RTM_DELADDR := by rw [hk]; simp [RTM_NEWADDR, RTM_DELADDR]
      rw [decide_eq_false hne] at hcalls
      rw [WatchItem.msg, if_neg hne, if_pos hk, List.filter_append, hcalls]
      exact ⟨rfl, rfl⟩
    · rw [decide_eq_true hk] at hcalls
      rw [WatchItem.msg, if_pos hk, List.filter_append, hcalls]
      exact ⟨rfl, rfl⟩
  | other f hk =>
    rw [WatchItem.msg, if_neg hk.2, if_neg hk.1, List.filter_append]
    exact ⟨rfl, rfl⟩

theorem watch_message_done {f : Msg} (h : Format.Holds m o f) (hd : f.type = NLMSG_DONE)
    (out : List WatchEv) :
    watch_message g c fuel lan_addrs s_ssdp s_ssdp6 m o out = (out, some ()) := by
  unfold watch_message
  dsimp only
  rw [Msg.type_of_holds h, if_pos hd]

end Message

/-! ## One datagram -/

section Datagram

variable {g : Globals} {c : Libc} {fuel : ℕ} {lan_addrs : List lan_addr_s} {s_ssdp s_ssdp6 : ℤ}
  {m : Mem}

/-- The loop over a `ssize_t` keeps to the received bytes. -/
theorem watch_walk {σ ρ : Type*} {body : ℕ → σ → σ × Option ρ} {len : ℤ} (hl : IntLen len)
    (hf : len.toNat < fuel) (s : σ) :
    forLoop (fun t => NLMSG_OK m t.1 t.2) (NLMSG_NEXT i64 m) (fun t s => body t.1 s) fuel (0, len) s
      = (foldBrk body (netlink.offsets m 0 len.toNat) s).map id Exit.ofBrk := by
  refine Format.forLoop_walk (I := IntLen) (fun o len _ => NLMSG_OK_iff)
    (fun o len hl hok => ?_) hl hf s
  obtain ⟨hlt, hlen, hrem⟩ := intLen_next rfl hl hok
  have hpad := netlink.pad_lt (netlink.lenAt m o)
  have hal : netlink.align = 4 := rfl
  have hle := hok.2.2
  obtain ⟨h1, h2⟩ := hl
  rw [i32_of_mem (by omega) (by omega)] at hlen hrem
  rw [netlink_lenAt] at hlt hlen hrem hpad hle ⊢
  rw [NLMSG_NEXT, NLMSG_ALIGN_eq hlt]
  dsimp only
  rw [i64_of_mem (by omega) (by omega)]
  exact ⟨hlen, rfl, hrem⟩

theorem watch_fold_calls : ∀ (items : List WatchItem) (o : ℕ) (out : List WatchEv),
    slice m o (Format.encode (items.map WatchItem.msg)).length =
      Format.encode (items.map WatchItem.msg) →
    (Format.encode (items.map WatchItem.msg)).length ≤ BUFLEN → BUFLEN < fuel →
      (foldBrk (watch_message g c fuel lan_addrs s_ssdp s_ssdp6 m)
        (netlink.offsets m o (Format.encode (items.map WatchItem.msg)).length) out).1.filter
          WatchEv.isCall =
        out.filter WatchEv.isCall ++
          (WatchItem.beforeDone items).filterMap (WatchItem.call c lan_addrs s_ssdp s_ssdp6)
  | [], o, out, _, _, _ => by
    rw [List.map_nil, Format.offsets_encode_nil]
    exact (List.append_nil _).symm
  | i :: items, o, out, h, hl, hf => by
    rw [List.map_cons] at h hl ⊢
    have hb : BUFLEN = 4096 := rfl
    obtain ⟨hi, hok, hrest⟩ := Format.holds_head h
    have hle := hok.2.2.trans hl
    rw [netlink_lenAt] at hle
    rw [Format.length_encode_cons] at hl
    rw [Format.offsets_of_ok hok, hi.lenAt, Format.length_encode_cons, Nat.add_sub_cancel_left,
      foldBrk]
    by_cases hd : i.msg.type = NLMSG_DONE
    · have hbefore : WatchItem.beforeDone (i :: items) = [] := by simp [WatchItem.beforeDone, hd]
      rw [watch_message_done hi hd, hbefore]
      exact (List.append_nil _).symm
    · have hbefore : WatchItem.beforeDone (i :: items) = i :: WatchItem.beforeDone items := by
        simp [WatchItem.beforeDone, hd]
      obtain ⟨h1, h2⟩ := @watch_message_calls g c fuel lan_addrs s_ssdp s_ssdp6 m o i hi (by omega)
        (by omega) hd out
      rcases hq : watch_message g c fuel lan_addrs s_ssdp s_ssdp6 m o out with ⟨out', e⟩
      rw [hq] at h1 h2
      obtain rfl : e = none := h1
      dsimp only at h2 ⊢
      rw [watch_fold_calls items _ out' hrest (by omega) hf, h2, hbefore, List.append_assoc,
        List.filterMap_cons]
      rcases i.call c lan_addrs s_ssdp s_ssdp6 with _ | e <;> rfl

theorem ProcessInterfaceWatch_run (hf : BUFLEN < fuel) (d : List UInt8) (buffer : Mem) :
    ProcessInterfaceWatch g c fuel lan_addrs s_ssdp s_ssdp6 (.datagram d) buffer =
      (some 0, (foldBrk (watch_message g c fuel lan_addrs s_ssdp s_ssdp6
        (overlay (d.take BUFLEN) buffer))
        (netlink.offsets (overlay (d.take BUFLEN) buffer) 0 (d.take BUFLEN).length) [.recvmsg]).1) := by
  have hb : BUFLEN = 4096 := rfl
  have hle : (d.take BUFLEN).length ≤ BUFLEN := List.length_take_le _ _
  have hw := @watch_walk fuel (overlay (d.take BUFLEN) buffer) _ _
    (watch_message g c fuel lan_addrs s_ssdp s_ssdp6 (overlay (d.take BUFLEN) buffer))
    (d.take BUFLEN).length (by unfold IntLen; omega) (by omega) [.recvmsg]
  rw [Int.toNat_natCast] at hw
  unfold ProcessInterfaceWatch recvmsg
  dsimp only
  rw [hw]
  generalize foldBrk (watch_message g c fuel lan_addrs s_ssdp s_ssdp6
    (overlay (d.take BUFLEN) buffer)) _ [.recvmsg] = q
  rcases q with ⟨out, _ | _⟩ <;> rfl

theorem ProcessInterfaceWatch_ofMsgs (hf : BUFLEN < fuel) (buffer : Mem) (items : List WatchItem)
    (hl : (Format.encode (items.map WatchItem.msg)).length ≤ BUFLEN) :
    (ProcessInterfaceWatch g c fuel lan_addrs s_ssdp s_ssdp6 (.ofMsgs (items.map WatchItem.msg))
        buffer).2.filter WatchEv.isCall =
      (WatchItem.beforeDone items).filterMap (WatchItem.call c lan_addrs s_ssdp s_ssdp6) := by
  rw [Reply.ofMsgs, ProcessInterfaceWatch_run hf, List.take_of_length_le hl,
    watch_fold_calls items 0 _ (slice_overlay _ buffer) hl hf]
  rfl

/-- The watch returns for every datagram. Of complete messages, those about an address before the
first end mark are the ones that lead to calls, one after the other. -/
theorem ProcessInterfaceWatch_calls (hf : BUFLEN < fuel) (buffer : Mem) :
    (∀ d, ∃ out, ProcessInterfaceWatch g c fuel lan_addrs s_ssdp s_ssdp6 (.datagram d) buffer =
        (some 0, out)) ∧
      ∀ items : List WatchItem, (Format.encode (items.map WatchItem.msg)).length ≤ BUFLEN →
        (ProcessInterfaceWatch g c fuel lan_addrs s_ssdp s_ssdp6
            (.ofMsgs (items.map WatchItem.msg)) buffer).2.filter WatchEv.isCall =
          (WatchItem.beforeDone items).filterMap (WatchItem.call c lan_addrs s_ssdp s_ssdp6) :=
  ⟨fun d => ⟨_, ProcessInterfaceWatch_run hf d buffer⟩,
    fun items hl => ProcessInterfaceWatch_ofMsgs hf buffer items hl⟩

end Datagram

/-- The kernel adds 192.168.1.2 to interface 3. -/
def added : AddrChange where
  msg := {
    bytes := [32, 0, 0, 0, 20, 0, 0, 0, 0, 0, 0, 0, 0, 0, 0, 0, 2, 16, 128, 0, 3, 0, 0, 0] ++
      Format.encode [Rta.inet 1 2]
    padding := []
    long := by decide
    len_eq := by decide
    padded := by decide }
  attrs := [.inet 1 2]
  kind := by decide
  long := by decide
  body := by decide
  addresses := by decide
  labels := by decide

/-- The second interface is joined to its group. -/
theorem added_joins : BUFLEN < 4097 ∧
    (Format.encode [added.msg]).length ≤ BUFLEN ∧
    (ProcessInterfaceWatch .empty Libc.bare 4097 [⟨[108, 111], "127.0.0.1", 1⟩,
        ⟨[101, 116, 104, 48], "10.0.0.1", 3⟩] 5 6 (.ofMsgs [added.msg]) fun _ => 255).2.filter
          WatchEv.isCall =
      [.AddDropMulticastMembership 5 ⟨[101, 116, 104, 48], "10.0.0.1", 3⟩ false false] := by
  have hl : (Format.encode [added.msg]).length ≤ BUFLEN := by decide
  refine ⟨by decide, hl, ?_⟩
  exact (@ProcessInterfaceWatch_calls .empty Libc.bare 4097 [⟨[108, 111], "127.0.0.1", 1⟩,
    ⟨[101, 116, 104, 48], "10.0.0.1", 3⟩] 5 6 (by decide) fun _ => 255).2 [.change added] hl

end NetTool
