import NetTool.Show
import NetTool.Proofs.Netlink

/-!
# The receive loops of the show commands

The loop looks at the first message of each datagram only (`parse_ofMsgs`). So it stops where it
should exactly when the first datagram with an end mark or an error begins with one, and it prints
none of the records.
-/

namespace NetTool

open Bytes CInt Frames Loop

/-- The message is one of the two that end a dump. -/
def Msg.terminates (f : Msg) : Bool := f.type = NLMSG_DONE ∨ f.type = NLMSG_ERROR

/-- What the loop has a look at: the type of the datagram's first message, or 0. -/
theorem parse_ofMsgs {d : List Msg} (hl : (Format.encode d).length ≤ BUFLEN) (buf : Mem) :
    util_parse_nl_msg_OK (util_get_msg buf BUFLEN (.ofMsgs d)).2
        (u64 (util_get_msg buf BUFLEN (.ofMsgs d)).1) = (d.head?.map Msg.type).getD 0 := by
  have hb : BUFLEN = 4096 := rfl
  have hu : (u64 ((Format.encode d).length : ℤ) : ℤ) = (Format.encode d).length :=
    u64_of_mem (by omega) (by omega)
  have hmsgs := messages_of_encode d buf
  simp only [util_get_msg, recvmsg, Reply.ofMsgs, List.take_of_length_le hl]
  unfold util_parse_nl_msg_OK
  rcases d with _ | ⟨f, d⟩
  · have h0 : (u64 ((Format.encode ([] : List Msg)).length : ℤ) : ℤ) = 0 := hu
    rw [if_neg]
    · rfl
    · rw [h0, NLMSG_OK_iff]
      exact fun hok => absurd hok.1 (by simp [netlink])
  · by_cases hok : netlink.Ok (overlay (Format.encode (f :: d)) buf) 0
      (Format.encode (f :: d)).length
    · rw [Format.offsets_of_ok hok] at hmsgs
      obtain ⟨hf, -⟩ := List.forall₂_cons.1 hmsgs
      rw [hu, if_pos (NLMSG_OK_iff.2 (by simpa using hok)), Msg.type_of_holds hf]
      rfl
    · rw [Format.offsets_of_not_ok hok] at hmsgs
      cases hmsgs

theorem show_loop_ofMsgs {d : List Msg} (hl : (Format.encode d).length ≤ BUFLEN)
    (rs : List Reply) (buf : Mem) : show_loop (.ofMsgs d :: rs) buf =
      if d.head?.any Msg.terminates then ⟨some 0, [.recvmsg]⟩
      else ⟨(show_loop rs (util_get_msg buf BUFLEN (.ofMsgs d)).2).ret,
        .recvmsg :: (show_loop rs (util_get_msg buf BUFLEN (.ofMsgs d)).2).out⟩ := by
  rw [show_loop]
  dsimp only
  rcases d with _ | ⟨f, d⟩
  · rw [show util_parse_nl_msg_OK _ _ = 0 from parse_ofMsgs hl buf]
    rfl
  · have hh : (f :: d).head?.any Msg.terminates = true ↔
        f.type = NLMSG_DONE ∨ f.type = NLMSG_ERROR := by
      simp [Msg.terminates]
    rw [show util_parse_nl_msg_OK _ _ = f.type from parse_ofMsgs hl buf]
    by_cases ht : f.type = NLMSG_DONE ∨ f.type = NLMSG_ERROR
    · rw [if_pos (hh.2 ht), if_neg fun h => (not_or.2 h) ht]
    · rw [if_neg (mt hh.1 ht), if_pos (not_or.1 ht)]

/-! ## Where the loops stop -/

/-- A run returns with its receive call `k`, counted from 0, or waits for ever. -/
def StopsAt (o : Outcome ℤ) : Option ℕ → Prop
  | some k => o.ret = some 0 ∧ o.out.count .recvmsg = k + 1
  | none => o.ret = none

/-- A run stops with the first datagram that holds an end mark or an error anywhere, and waits
for ever where none does. -/
def StopsAtEnd (o : Outcome ℤ) (ds : List (List Msg)) : Prop :=
  StopsAt o (ds.findIdx? fun d => d.any Msg.terminates)

/-- The first datagram that holds an end mark or an error begins with one. -/
def EndsFirst (ds : List (List Msg)) : Prop :=
  ∀ d, ds.find? (fun d => d.any Msg.terminates) = some d → d.head?.any Msg.terminates

theorem stopsAt_recvmsg {o : Outcome ℤ} {k : Option ℕ} :
    StopsAt ⟨o.ret, .recvmsg :: o.out⟩ (k.map (· + 1)) ↔ StopsAt o k := by
  rcases k with _ | k
  · rfl
  · simp [StopsAt]

theorem stopsAt_sendmsg {o : Outcome ℤ} {c : Libc} {m : Mem} {k : Option ℕ} :
    StopsAt ⟨o.ret, (send_message c m).out ++ o.out⟩ k ↔ StopsAt o k := by
  rcases k with _ | k
  · rfl
  · simp [StopsAt, send_message]

theorem count_show_loop_pos : ∀ (rs : List Reply) (buf : Mem),
    0 < (show_loop rs buf).out.count .recvmsg
  | [], _ => by simp [show_loop]
  | r :: rs, buf => by
    rw [show_loop]
    dsimp only
    split_ifs
    · simp
    · simp

theorem show_loop_stops_iff : ∀ (ds : List (List Msg)) (buf : Mem),
    (∀ d ∈ ds, (Format.encode d).length ≤ BUFLEN) →
      (StopsAtEnd (show_loop (ds.map .ofMsgs) buf) ds ↔ EndsFirst ds)
  | [], buf, _ => by simp [StopsAtEnd, EndsFirst, StopsAt, show_loop]
  | d :: ds, buf, hl => by
    have hd := hl d List.mem_cons_self
    have ih := show_loop_stops_iff ds (util_get_msg buf BUFLEN (.ofMsgs d)).2
      fun e he => hl e (List.mem_cons_of_mem _ he)
    have hpos := count_show_loop_pos (ds.map .ofMsgs) (util_get_msg buf BUFLEN (.ofMsgs d)).2
    unfold StopsAtEnd EndsFirst at ih ⊢
    rw [List.findIdx?_cons, List.find?_cons, List.map_cons, show_loop_ofMsgs hd]
    rcases ha : d.any Msg.terminates
    · have hh : d.head?.any Msg.terminates = false := by
        rcases d with _ | ⟨f, d⟩
        · rfl
        · simpa using (Bool.or_eq_false_iff.1 (List.any_cons ▸ ha)).1
      rw [hh]
      exact stopsAt_recvmsg.trans ih
    · rcases hh : d.head?.any Msg.terminates
      · simp [StopsAt, hh, hpos.ne']
      · simp [StopsAt, hh]

section Commands

variable (c : Libc) {ds : List (List Msg)} (stale buf : Mem)

theorem nettool_ip_show_stops (hl : ∀ d ∈ ds, (Format.encode d).length ≤ BUFLEN) :
    StopsAtEnd (nettool_ip_show c (ds.map .ofMsgs) stale buf) ds ↔ EndsFirst ds :=
  stopsAt_sendmsg.trans (show_loop_stops_iff ds buf hl)

theorem gateway_show_stops (hl : ∀ d ∈ ds, (Format.encode d).length ≤ BUFLEN) :
    StopsAtEnd (gateway_show c (ds.map .ofMsgs) stale buf) ds ↔ EndsFirst ds :=
  stopsAt_sendmsg.trans (show_loop_stops_iff ds buf hl)

/-- Both commands stop where they should exactly when the first datagram with an end mark or an
error begins with one. -/
theorem show_stops_iff (hl : ∀ d ∈ ds, (Format.encode d).length ≤ BUFLEN) :
    (StopsAtEnd (nettool_ip_show c (ds.map .ofMsgs) stale buf) ds ↔ EndsFirst ds) ∧
      (StopsAtEnd (gateway_show c (ds.map .ofMsgs) stale buf) ds ↔ EndsFirst ds) :=
  ⟨nettool_ip_show_stops c stale buf hl, gateway_show_stops c stale buf hl⟩

end Commands

/-- A message that is its `ifaddrmsg` only. -/
def Msg.newAddr : Msg where
  bytes := [24, 0, 0, 0, 20, 0, 0, 0, 0, 0, 0, 0, 0, 0, 0, 0, 2, 24, 0, 0, 3, 0, 0, 0]
  padding := []
  long := by simp [netlink]
  len_eq := rfl
  padded := by simp [netlink, Format.pad]

/-- A message that is its `rtmsg` only. -/
def Msg.newRoute : Msg where
  bytes := [28, 0, 0, 0, 24, 0, 0, 0, 0, 0, 0, 0, 0, 0, 0, 0, 2, 0, 0, 0, 254, 4, 0, 1, 0, 0, 0, 0]
  padding := []
  long := by simp [netlink]
  len_eq := rfl
  padded := by simp [netlink, Format.pad]

theorem ownDatagram_stops :
    (∀ d ∈ [[Msg.newAddr], [Msg.header 3]], (Format.encode d).length ≤ BUFLEN) ∧
      StopsAtEnd (nettool_ip_show Libc.bare ([[Msg.newAddr], [Msg.header 3]].map .ofMsgs)
        (fun _ => 0) fun _ => 0) [[Msg.newAddr], [Msg.header 3]] ∧
      StopsAtEnd (gateway_show Libc.bare ([[Msg.newAddr], [Msg.header 3]].map .ofMsgs)
        (fun _ => 0) fun _ => 0) [[Msg.newAddr], [Msg.header 3]] := by
  have hl : ∀ d ∈ [[Msg.newAddr], [Msg.header 3]], (Format.encode d).length ≤ BUFLEN := by decide
  have he : EndsFirst [[Msg.newAddr], [Msg.header 3]] := by
    intro d hd
    obtain rfl : [Msg.header 3] = d := Option.some.inj hd
    rfl
  obtain ⟨h1, h2⟩ := show_stops_iff Libc.bare (fun _ => 0) (fun _ => 0) hl
  exact ⟨hl, h1.2 he, h2.2 he⟩

/-- The end mark stands behind an address. -/
theorem packedEnd_not_stops :
    ¬ StopsAtEnd (nettool_ip_show Libc.bare ([[Msg.newAddr, Msg.header 3]].map .ofMsgs)
        (fun _ => 0) fun _ => 0) [[Msg.newAddr, Msg.header 3]] ∧
      ¬ StopsAtEnd (gateway_show Libc.bare ([[Msg.newAddr, Msg.header 3]].map .ofMsgs)
        (fun _ => 0) fun _ => 0) [[Msg.newAddr, Msg.header 3]] := by
  have hl : ∀ d ∈ [[Msg.newAddr, Msg.header 3]], (Format.encode d).length ≤ BUFLEN := by decide
  have he : ¬ EndsFirst [[Msg.newAddr, Msg.header 3]] := fun h => by
    have := h [Msg.newAddr, Msg.header 3] rfl
    revert this
    decide
  rw [nettool_ip_show_stops _ _ _ hl, gateway_show_stops _ _ _ hl]
  exact ⟨he, he⟩

/-! ## What the loops print -/

def Ev.isPrintf : Ev → Bool
  | .printf _ _ => true
  | _ => false

theorem show_loop_silent : ∀ (rs : List Reply) (buf : Mem),
    (show_loop rs buf).out.filter Ev.isPrintf = []
  | [], _ => rfl
  | r :: rs, buf => by
    rw [show_loop]
    dsimp only
    split_ifs
    · exact show_loop_silent rs _
    · rfl

theorem nettool_ip_show_silent (c : Libc) (rs : List Reply) (stale buf : Mem) :
    (nettool_ip_show c rs stale buf).out.filter Ev.isPrintf = [] := by
  unfold nettool_ip_show get_ip send_message
  exact show_loop_silent rs buf

theorem gateway_show_silent (c : Libc) (rs : List Reply) (stale buf : Mem) :
    (gateway_show c rs stale buf).out.filter Ev.isPrintf = [] := by
  unfold gateway_show get_gateway send_message
  exact show_loop_silent rs buf

/-- `evs` is what `parse_ifa_msg` prints of the message, wherever it stands. -/
def IfaRecord (c : Libc) (f : Msg) (evs : List Ev) : Prop :=
  ∃ fuel ip m o, Format.Holds m o f ∧
    evs = (parse_ifa_msg c fuel ip m (NLMSG_DATA o) (IFA_RTA (NLMSG_DATA o))
      (NLMSG_PAYLOAD m o 8)).2

/-- `evs` is what `parse_rt_msg` prints of the message, wherever it stands. -/
def RtRecord (c : Libc) (f : Msg) (evs : List Ev) : Prop :=
  ∃ fuel ip m o, Format.Holds m o f ∧
    evs = (parse_rt_msg c fuel ip m (NLMSG_DATA o) (RTM_RTA (NLMSG_DATA o))
      (NLMSG_PAYLOAD m o 12)).2

/-- What was printed is one record for each message, in order. -/
def PrintsRecords (Rec : Msg → List Ev → Prop) (fs : List Msg) (out : List Ev) : Prop :=
  ∃ recs, List.Forall₂ Rec fs recs ∧ out.filter Ev.isPrintf = recs.flatten

theorem IfaRecord.ne_nil {c : Libc} {f : Msg} {evs : List Ev} (h : IfaRecord c f evs) :
    evs ≠ [] := by
  obtain ⟨fuel, ip, m, o, -, rfl⟩ := h
  simp [parse_ifa_msg]

theorem RtRecord.ne_nil {c : Libc} {f : Msg} {evs : List Ev} (h : RtRecord c f evs) :
    evs ≠ [] := by
  obtain ⟨fuel, ip, m, o, -, rfl⟩ := h
  simp [parse_rt_msg]

/-- Nothing printed is a record for each message only where there is no message. -/
theorem printsRecords_silent {Rec : Msg → List Ev → Prop} (hrec : ∀ f evs, Rec f evs → evs ≠ [])
    {fs : List Msg} {out : List Ev} (hout : out.filter Ev.isPrintf = []) :
    PrintsRecords Rec fs out ↔ fs = [] := by
  refine ⟨fun ⟨recs, h, he⟩ => ?_, fun h => ⟨[], h ▸ .nil, hout⟩⟩
  rw [hout] at he
  cases h with
  | nil => rfl
  | cons hf _ => exact absurd (List.append_eq_nil_iff.1 he.symm).1 (hrec _ _ hf)

/-- The commands print the records of a dump exactly when it has none. -/
theorem show_prints_iff (c : Libc) (D : Dump) (S : D.Split) (rest : List Reply) (stale buf : Mem) :
    (PrintsRecords (IfaRecord c) (D.msgs.filter fun f => f.type = RTM_NEWADDR)
        (nettool_ip_show c (S.datagrams.map .ofMsgs ++ rest) stale buf).out ↔
      ∀ f ∈ D.msgs, f.type ≠ RTM_NEWADDR) ∧
    (PrintsRecords (RtRecord c) (D.msgs.filter fun f => f.type = RTM_NEWROUTE)
        (gateway_show c (S.datagrams.map .ofMsgs ++ rest) stale buf).out ↔
      ∀ f ∈ D.msgs, f.type ≠ RTM_NEWROUTE) := by
  rw [printsRecords_silent (fun _ _ => IfaRecord.ne_nil) (nettool_ip_show_silent ..),
    printsRecords_silent (fun _ _ => RtRecord.ne_nil) (gateway_show_silent ..)]
  simp [List.filter_eq_nil_iff]

/-- A dump of one address and one route. -/
def oneOfEach : Dump where
  msgs := [Msg.newAddr, Msg.newRoute]
  done := Msg.header 3
  not_end := by decide
  no_error := by decide
  links := by decide
  is_end := Msg.type_header_done

def oneOfEachSplit : oneOfEach.Split where
  datagrams := [[Msg.newAddr, Msg.newRoute], [Msg.header 3]]
  flatten_eq := rfl
  fits := by decide

theorem oneOfEach_not_prints :
    ¬ PrintsRecords (IfaRecord Libc.bare) (oneOfEach.msgs.filter fun f => f.type = RTM_NEWADDR)
        (nettool_ip_show Libc.bare (oneOfEachSplit.datagrams.map .ofMsgs) (fun _ => 0)
          fun _ => 0).out ∧
      ¬ PrintsRecords (RtRecord Libc.bare) (oneOfEach.msgs.filter fun f => f.type = RTM_NEWROUTE)
        (gateway_show Libc.bare (oneOfEachSplit.datagrams.map .ofMsgs) (fun _ => 0)
          fun _ => 0).out := by
  rw [printsRecords_silent (fun _ _ => IfaRecord.ne_nil) (nettool_ip_show_silent ..),
    printsRecords_silent (fun _ _ => RtRecord.ne_nil) (gateway_show_silent ..)]
  exact ⟨List.cons_ne_nil _ _, List.cons_ne_nil _ _⟩

end NetTool
