import NetTool.NetLib
import NetTool.Proofs.Main

/-!
# The loop of `Net_1`, and what `Net_2` reports

A round comes to its end exactly where `NLMSG_OK` holds of `status` as an `int`
(`show_message_of_ok`, `show_message_of_not_ok`), and takes at least 16 from it
(`next_message_of_ok`), so both loops end on any bytes (`Net_1_loops_end`). Over complete messages
the loop reaches all but a last one that is its header only, and prints a record for each of them,
whatever its type (`message_loop_encode`).

`Net_2` asks for what `del_ip` takes back, and reports no more than its answer says
(`Net_2_reports`).
-/

namespace NetTool

open Bytes CInt Frames Loop

variable {m : Mem} {fuel : ℕ}

/-- The values of an `int`. -/
def IsInt (x : ℤ) : Prop := -2 ^ 31 ≤ x ∧ x < 2 ^ 31

/-! ## The attributes -/

theorem attribute_next {t : ℕ × ℤ} (ht : IsInt t.2) (hok : RTA_OK m t.1 t.2 = true) :
    IsInt (RTA_NEXT i32 m t).2 ∧ (RTA_NEXT i32 m t).2 + 4 ≤ t.2 := by
  obtain ⟨h1, h2, h3⟩ := RTA_OK_iff.1 hok
  have hh : rtattr.hdr = 4 := rfl
  have ha : rtattr.align = 4 := rfl
  have hle := rtattr.le_pad (rta_len m t.1)
  have hlt := rtattr.pad_lt (rta_len m t.1)
  rw [rtattr_lenAt] at h2 h3
  obtain ⟨h4, h5⟩ := ht
  unfold RTA_NEXT IsInt
  dsimp only
  rw [RTA_ALIGN_eq (by omega), i32_of_mem (by omega) (by omega)]
  omega

/-- The loop over the attributes ends, whatever stands there. -/
theorem show_attributes_ends {rtatp : ℕ} {rtattrlen : ℤ} (hi : IsInt rtattrlen)
    (hf : rtattrlen.toNat < fuel) : (show_attributes fuel m rtatp rtattrlen).2 = .done := by
  have h : (show_attributes fuel m rtatp rtattrlen).2 = .done ∨
      ∃ r, (show_attributes fuel m rtatp rtattrlen).2 = .brk r ∧ False := by
    refine forLoop_ends (I := fun t => IsInt t.2) (μ := fun t => t.2.toNat)
      (fun t s ht hok _ => ?_) (fun t s r _ _ hr => by cases hr) hi hf
    obtain ⟨h1, h2⟩ := attribute_next ht hok
    have h4 := (RTA_OK_iff.1 hok).1
    have hh : rtattr.hdr = 4 := rfl
    exact ⟨h1, by omega⟩
  exact h.resolve_right fun ⟨r, _, hr⟩ => hr

/-! ## One round -/

/-- What a round that comes to its end leaves. -/
theorem next_message_of_ok {p : ℕ} {status : ℤ} (hs : IsInt status)
    (hok : NLMSG_OK m p status = true) :
    next_message m (p, status) =
        (p + netlink.pad (nlmsg_len m p), status - netlink.pad (nlmsg_len m p)) ∧
      16 ≤ netlink.pad (nlmsg_len m p) ∧ netlink.pad (nlmsg_len m p) < status + 4 ∧
      16 ≤ status := by
  obtain ⟨h1, h2, h3⟩ := NLMSG_OK_bounds hok
  have hlt := hs.2
  have ha : netlink.align = 4 := rfl
  have hle := netlink.le_pad (nlmsg_len m p)
  have hpad := netlink.pad_lt (nlmsg_len m p)
  have hlen : i32 (nlmsg_len m p) = nlmsg_len m p := i32_of_mem (by omega) (by omega)
  have hu : u32 (nlmsg_len m p) = nlmsg_len m p := by
    have := @u32_of_mem (nlmsg_len m p) (by omega) (by omega)
    omega
  refine ⟨?_, by omega, by omega, h1⟩
  unfold next_message
  dsimp only
  rw [hlen, hu, NLMSG_ALIGN_eq (by omega), i32_of_mem (by omega) (by omega)]

theorem isInt_payload (m : Mem) (p : ℕ) : IsInt (i32 (NLMSG_PAYLOAD m p 8)) := by
  unfold IsInt i32
  omega

/-- The attributes of an accepted message are no longer than what is left of the datagram. -/
theorem payload_le {p : ℕ} {status : ℤ} (hs : IsInt status) (hok : NLMSG_OK m p status = true) :
    i32 (NLMSG_PAYLOAD m p 8) ≤ status := by
  obtain ⟨h1, h2, h3⟩ := NLMSG_OK_bounds hok
  have hlt := hs.2
  have ha : NLMSG_ALIGN (NLMSG_LENGTH 8) = 24 := rfl
  rw [NLMSG_PAYLOAD, i32_u64, ha, i32_of_mem (by omega) (by omega)]
  omega

/-- The line for an interface. -/
def Ev.isRecord : Ev → Bool
  | .printf fmt _ => fmt = "Index Of Iface= %d\n"
  | _ => false

def MsgRound.hasRecord (r : MsgRound) : Bool := r.out.any Ev.isRecord

/-- A round over the message at `p`. -/
structure RoundOf (m : Mem) (p : ℕ) (status : ℤ) (r : MsgRound) : Prop where
  nlmp_eq : r.nlmp = p
  status_eq : r.status = status
  left_eq : r.left = (next_message m (p, status)).2
  record : r.hasRecord = true

theorem roundOf_mk (p : ℕ) (status : ℤ) (out : List Ev) : RoundOf m p status
    ⟨p, status, (next_message m (p, status)).2, index_line m p :: out⟩ :=
  ⟨rfl, rfl, rfl, by simp [MsgRound.hasRecord, index_line, Ev.isRecord]⟩

/-- A round over a message that `NLMSG_OK` accepts comes to its end. -/
theorem show_message_of_ok {p : ℕ} {status : ℤ} {rounds : List MsgRound} (hs : IsInt status)
    (hf : status.toNat < fuel) (hok : NLMSG_OK m p status = true) :
    ∃ r, RoundOf m p status r ∧
      show_message fuel m (p, status) rounds = (rounds ++ [r], none) := by
  obtain ⟨h1, h2, h3⟩ := NLMSG_OK_bounds hok
  have hlt := hs.2
  have hlen : i32 (nlmsg_len m p) = nlmsg_len m p := i32_of_mem (by omega) (by omega)
  have hu : (u64 (nlmsg_len m p) : ℤ) = nlmsg_len m p := u64_of_mem (by omega) (by omega)
  have hr : (u64 ((nlmsg_len m p : ℤ) - 16) : ℤ) = nlmsg_len m p - 16 :=
    u64_of_mem (by omega) (by omega)
  have hle := payload_le hs hok
  unfold show_message
  dsimp only
  rw [hlen, hu, hr, i32_of_mem (by omega) (by omega), if_neg (by omega), if_neg (by simp [hok]),
    show_attributes_ends (isInt_payload m p) (by omega), if_neg (fun he => by cases he)]
  exact ⟨_, roundOf_mk p status _, rfl⟩

/-- Any other round returns. -/
theorem show_message_of_not_ok {t : ℕ × ℤ} {rounds : List MsgRound}
    (hok : NLMSG_OK m t.1 t.2 = false) :
    ∃ ret out, show_message fuel m t rounds = (rounds, some ⟨some ret, out⟩) := by
  unfold show_message
  dsimp only
  split_ifs
  · exact ⟨_, _, rfl⟩
  · exact ⟨_, _, rfl⟩

/-! ## The run -/

/-- What the rounds of a run take from `status`. -/
structure Progress (status : ℤ) (rounds : List MsgRound) : Prop where
  down : ∀ r ∈ rounds, r.left + 16 ≤ r.status
  nonneg : ∀ r ∈ rounds, 0 ≤ r.status
  chain : rounds.IsChain fun r r' => r'.status = r.left
  first : ∀ r ∈ rounds.head?, r.status = status

theorem Progress.cons {r : MsgRound} {rounds : List MsgRound} (h : Progress r.left rounds)
    (hd : r.left + 16 ≤ r.status) (h0 : 0 ≤ r.status) : Progress r.status (r :: rounds) where
  down := List.forall_mem_cons.2 ⟨hd, h.down⟩
  nonneg := List.forall_mem_cons.2 ⟨h0, h.nonneg⟩
  chain := List.isChain_cons.2 ⟨h.first, h.chain⟩
  first := by
    intro r' hr
    cases hr
    rfl

theorem message_loop_progress : ∀ {n : ℕ} {t : ℕ × ℤ} {rounds : List MsgRound}, IsInt t.2 →
    t.2.toNat < fuel → ∃ rs,
      (forLoop (fun t => 16 < u64 t.2) (next_message m) (show_message fuel m) n t rounds).1 =
        rounds ++ rs ∧ Progress t.2 rs
  | 0, t, rounds, _, _ =>
    ⟨[], (List.append_nil _).symm, by simp, by simp, List.IsChain.nil, by simp⟩
  | n + 1, (p, status), rounds, ht, hf => by
    have hnil : Progress status [] := ⟨by simp, by simp, List.IsChain.nil, by simp⟩
    rw [forLoop]
    split_ifs with htest
    · rcases hok : NLMSG_OK m p status
      · obtain ⟨ret, out, he⟩ := @show_message_of_not_ok m fuel (p, status) rounds hok
        rw [he]
        exact ⟨[], (List.append_nil _).symm, hnil⟩
      · obtain ⟨r, hr, he⟩ := @show_message_of_ok m fuel p status rounds ht hf hok
        obtain ⟨hn, h16, hpad, hge⟩ := next_message_of_ok ht hok
        have hstatus := hr.status_eq
        have hleft := hr.left_eq
        have hlt := ht.2
        rw [hn] at hleft
        rw [he, hn]
        dsimp only at *
        obtain ⟨rs, hrs, hp⟩ := @message_loop_progress n
          (p + netlink.pad (nlmsg_len m p), status - netlink.pad (nlmsg_len m p)) (rounds ++ [r])
          (by unfold IsInt; dsimp only; omega) (by dsimp only; omega)
        rw [← hleft] at hrs hp ⊢
        refine ⟨r :: rs, ?_, ?_⟩
        · rw [hrs, List.append_assoc]
          rfl
        · rw [← hstatus]
          exact hp.cons (by omega) (by omega)
    · exact ⟨[], (List.append_nil _).symm, hnil⟩

theorem message_loop_ends {t : ℕ × ℤ} (ht : IsInt t.2) (hf : t.2.toNat < fuel)
    (rounds : List MsgRound) : (message_loop fuel m t rounds).2 = .done ∨
      ∃ o : Outcome ℤ, (message_loop fuel m t rounds).2 = .brk o ∧ o.ret.isSome := by
  refine forLoop_ends (I := fun t => IsInt t.2 ∧ t.2.toNat < fuel) (μ := fun t => t.2.toNat)
    (fun t s ht _ hb => ?_) (fun t s o ht _ hb => ?_) ⟨ht, hf⟩ hf
  · obtain ⟨p, status⟩ := t
    rcases hok : NLMSG_OK m p status
    · obtain ⟨ret, out, he⟩ := @show_message_of_not_ok m fuel (p, status) s hok
      rw [he] at hb
      cases hb
    · obtain ⟨hn, h16, hpad, hge⟩ := next_message_of_ok ht.1 hok
      obtain ⟨⟨h1, h2⟩, h3⟩ := ht
      rw [hn]
      unfold IsInt
      dsimp only at *
      omega
  · obtain ⟨p, status⟩ := t
    rcases hok : NLMSG_OK m p status
    · obtain ⟨ret, out, he⟩ := @show_message_of_not_ok m fuel (p, status) s hok
      rw [he] at hb
      cases hb
      rfl
    · obtain ⟨r, -, he⟩ := @show_message_of_ok m fuel p status s ht.1 ht.2 hok
      rw [he] at hb
      cases hb

/-- The rounds of a run take no more than there is. -/
theorem Progress.length_le : ∀ {rounds : List MsgRound} {status : ℤ}, Progress status rounds →
    0 ≤ status → 16 * (rounds.length : ℤ) ≤ status + 16
  | [], status, _, h0 => by
    rw [List.length_nil]
    omega
  | [r], status, h, h0 => by
    rw [List.length_singleton]
    omega
  | r :: r' :: rs, status, h, h0 => by
    have hs : r.status = status := h.first r rfl
    have hd := h.down r List.mem_cons_self
    obtain ⟨hlink, hchain⟩ := List.isChain_cons_cons.1 h.chain
    have h0' := h.nonneg r' (by simp)
    have htail : Progress r'.status (r' :: rs) := ⟨fun x hx => h.down x (List.mem_cons_of_mem _ hx),
      fun x hx => h.nonneg x (List.mem_cons_of_mem _ hx), hchain, fun x hx => by cases hx; rfl⟩
    have ih := htail.length_le h0'
    rw [List.length_cons]
    push_cast
    omega

theorem rounds_list_messages (fuel : ℕ) (m : Mem) (status : ℤ) :
    (list_messages fuel m status).rounds = (message_loop fuel m (0, status) []).1 := by
  unfold list_messages
  dsimp only
  split
  · rfl
  · rfl
  · rfl

theorem list_messages_progress {status : ℤ} (hs : IsInt status) (hf : status.toNat < fuel) :
    Progress status (list_messages fuel m status).rounds := by
  obtain ⟨rs, hrs, hp⟩ := @message_loop_progress m fuel fuel (0, status) [] hs hf
  rw [List.nil_append] at hrs
  rw [rounds_list_messages]
  exact hrs ▸ hp

/-- A call has no more rounds than headers fit in the bytes it received. -/
theorem list_messages_rounds_le {status : ℤ} (h0 : 0 ≤ status) (hs : IsInt status)
    (hf : status.toNat < fuel) :
    16 * ((list_messages fuel m status).rounds.length : ℤ) ≤ status + 16 :=
  (list_messages_progress hs hf).length_le h0

/-- On any bytes, both loops end, each round that comes to its end takes at least 16 from
`status`, and none does once it is negative. -/
theorem Net_1_loops_end (m : Mem) {status : ℤ} (h0 : 0 < status) (h : status < 2 ^ 31) {fuel : ℕ}
    (hf : status < fuel) :
    (list_messages fuel m status).ret.isSome ∧
    Progress status (list_messages fuel m status).rounds ∧
    ∀ (rtatp : ℕ) (rtattrlen : ℤ), IsInt rtattrlen → rtattrlen ≤ status →
      (show_attributes fuel m rtatp rtattrlen).2 = .done := by
  have hi : IsInt status := ⟨by omega, h⟩
  refine ⟨?_, list_messages_progress hi (by omega),
    fun rtatp rtattrlen hint hle => show_attributes_ends hint (by omega)⟩
  unfold list_messages
  rcases @message_loop_ends m fuel (0, status) hi (by dsimp only; omega) [] with he | ⟨o, he, hr⟩
  · simp only [he, Option.isSome_some]
  · simpa only [he] using hr

/-- One byte more than a header: the padding takes `status` to -3. -/
theorem oneByteMore_ends : (list_messages 18 (ofList [17]) 17).ret.isSome ∧
    Progress 17 (list_messages 18 (ofList [17]) 17).rounds := by
  have h := @Net_1_loops_end (ofList [17]) 17 (by omega) (by omega) 18 (by omega)
  exact ⟨h.1, h.2.1⟩

/-! ## Complete messages -/

namespace Msg

/-- Where messages that stand one after the other from `o` on stand. -/
def placed : ℕ → List Msg → List (ℕ × Msg)
  | _, [] => []
  | o, f :: fs => (o, f) :: placed (o + netlink.pad f.bytes.length) fs

/-- The messages the loop reaches: not a last one that is its header only. -/
def reached : List Msg → List Msg
  | [] => []
  | f :: fs => if (Format.encode (f :: fs)).length ≤ 16 then [] else f :: reached fs

variable {o : ℕ}

theorem length_placed : ∀ (fs : List Msg) (o : ℕ), (placed o fs).length = fs.length
  | [], _ => rfl
  | f :: fs, o => by rw [placed, List.length_cons, length_placed fs, List.length_cons]

theorem map_placed : ∀ (fs : List Msg) (o : ℕ), (placed o fs).map Prod.snd = fs
  | [], _ => rfl
  | f :: fs, o => by rw [placed, List.map_cons, map_placed fs]

theorem reached_eq : ∀ {fs : List Msg}, (∀ f ∈ fs, 16 < f.bytes.length) → reached fs = fs
  | [], _ => rfl
  | f :: fs, h => by
    have hf := h f List.mem_cons_self
    have hp := netlink.le_pad f.bytes.length
    rw [reached, reached_eq fun g hg => h g (List.mem_cons_of_mem _ hg),
      Format.length_encode_cons, if_neg (by omega)]

end Msg

/-- Over complete messages the loop reaches one after the other, and prints a record for each. -/
theorem message_loop_encode (hf : 16384 < fuel) : ∀ (fs : List Msg) {o n : ℕ}
    {rounds : List MsgRound}, slice m o (Format.encode fs).length = Format.encode fs →
    (Format.encode fs).length ≤ 16384 → (Format.encode fs).length < n →
    ∃ rs, forLoop (fun t => 16 < u64 t.2) (next_message m) (show_message fuel m) n
        (o, ((Format.encode fs).length : ℤ)) rounds = (rounds ++ rs, .done) ∧
      rs.map MsgRound.nlmp = (Msg.placed o (Msg.reached fs)).map Prod.fst ∧
      ∀ r ∈ rs, r.hasRecord = true
  | [], o, n + 1, rounds, _, _, _ => by
    have hu : ¬ 16 < u64 ((Format.encode ([] : List Msg)).length : ℤ) := by
      rw [show u64 ((Format.encode ([] : List Msg)).length : ℤ) = 0 from rfl]
      omega
    rw [forLoop, if_neg (by simpa using hu)]
    exact ⟨[], by rw [List.append_nil], rfl, by simp⟩
  | f :: fs, o, n + 1, rounds, hs, hle, hn => by
    obtain ⟨hh, hok, hrest⟩ := Format.holds_head hs
    have hl := hh.lenAt
    rw [netlink_lenAt] at hl
    have hlen : (Format.encode (f :: fs)).length =
      netlink.pad f.bytes.length + (Format.encode fs).length := Format.length_encode_cons f fs
    have hu : u64 ((Format.encode (f :: fs)).length : ℤ) = (Format.encode (f :: fs)).length := by
      have := @u64_of_mem ((Format.encode (f :: fs)).length : ℤ) (by omega) (by omega)
      omega
    have hint : IsInt ((Format.encode (f :: fs)).length : ℤ) := by
      unfold IsInt
      omega
    rw [forLoop, Msg.reached]
    dsimp only
    by_cases h16 : (Format.encode (f :: fs)).length ≤ 16
    · rw [hu, if_neg (by simpa using h16), if_pos h16]
      exact ⟨[], by rw [List.append_nil], rfl, by simp⟩
    · have hOK : NLMSG_OK m o ((Format.encode (f :: fs)).length : ℤ) = true := NLMSG_OK_iff.2 hok
      obtain ⟨r, hr, he⟩ := @show_message_of_ok m fuel o _ rounds hint (by omega) hOK
      obtain ⟨hnext, hpad, -⟩ := next_message_of_ok hint hOK
      rw [hl] at hnext hpad
      have hleft : ((Format.encode (f :: fs)).length : ℤ) - netlink.pad f.bytes.length =
        (Format.encode fs).length := by omega
      obtain ⟨rs, hrun, hpos, hrec⟩ := @message_loop_encode hf fs (o + netlink.pad f.bytes.length) n
        (rounds ++ [r]) hrest (by omega) (by omega)
      rw [hu, if_pos (by simpa using h16), if_neg h16, he]
      dsimp only
      rw [hnext, hleft]
      refine ⟨r :: rs, ?_, ?_, List.forall_mem_cons.2 ⟨hr.record, hrec⟩⟩
      · rw [hrun, List.append_assoc]
        rfl
      · rw [List.map_cons, hpos, hr.nlmp_eq]
        rfl

/-! ## The call -/

/-- The message tells of an address. -/
def Msg.HasAddress (f : Msg) : Prop := f.type = RTM_NEWADDR ∧ 16 < f.bytes.length

instance (f : Msg) : Decidable f.HasAddress := inferInstanceAs (Decidable (_ ∧ _))

/-- A call that receives these messages reaches each of them, in order, prints a record for
exactly those that tell of an address, and returns 0. -/
def ListsRight (fs : List Msg) : Prop :=
  ∀ (c : Libc) (fuel : ℕ) (buf : Mem), 0 ≤ c.sendmsg → 16384 < fuel →
    let q := Net_1 c fuel buf (.datagram (Format.encode fs))
    q.ret = some 0 ∧ q.rounds.map MsgRound.nlmp = (Msg.placed 0 fs).map Prod.fst ∧
      (q.rounds.filter MsgRound.hasRecord).map MsgRound.nlmp =
        ((Msg.placed 0 fs).filter fun x => x.2.HasAddress).map Prod.fst

section Call

variable {fs : List Msg} {c : Libc} {buf : Mem}

/-- Net_1 on a datagram of complete messages. -/
theorem Net_1_encode (hne : fs ≠ []) (hle : (Format.encode fs).length ≤ 16384)
    (hc : 0 ≤ c.sendmsg) (hf : 16384 < fuel) :
    let q := Net_1 c fuel buf (.datagram (Format.encode fs))
    q.ret = some 0 ∧ q.rounds.map MsgRound.nlmp = (Msg.placed 0 (Msg.reached fs)).map Prod.fst ∧
      ∀ r ∈ q.rounds, r.hasRecord = true := by
  have h0 : ((Format.encode fs).length : ℤ) ≠ 0 := by
    obtain ⟨f, gs, rfl⟩ := List.exists_cons_of_ne_nil hne
    have hl := f.long
    have hp := netlink.le_pad f.bytes.length
    have hh : netlink.hdr = 16 := rfl
    rw [Format.length_encode_cons]
    omega
  obtain ⟨rs, hrun, hpos, hrec⟩ := @message_loop_encode (overlay (Format.encode fs) buf) fuel hf
    fs 0 fuel [] (slice_overlay _ buf) hle (by omega)
  have hloop : message_loop fuel (overlay (Format.encode fs) buf)
    (0, ((Format.encode fs).length : ℤ)) [] = (rs, .done) := hrun
  unfold Net_1 recvmsg list_messages
  dsimp only
  rw [if_neg (by omega), List.take_of_length_le hle, if_neg h0, hloop]
  exact ⟨rfl, hpos, hrec⟩

theorem Net_1_nil (hc : 0 ≤ c.sendmsg) :
    (Net_1 c fuel buf (.datagram (Format.encode ([] : List Msg)))).ret = some 1 := by
  unfold Net_1
  rw [if_neg (by omega)]
  rfl

end Call

theorem ListsRight.hasAddress {fs : List Msg} (hle : (Format.encode fs).length ≤ 16384)
    (h : ListsRight fs) : fs ≠ [] ∧ ∀ f ∈ fs, f.HasAddress := by
  have hne : fs ≠ [] := by
    rintro rfl
    have h1 := (h Libc.bare 16385 (fun _ => 0) (Int.le_refl 0) (by omega)).1
    rw [Net_1_nil (Int.le_refl 0)] at h1
    cases h1
  obtain ⟨-, hpos, hrec⟩ := h Libc.bare 16385 (fun _ => 0) (Int.le_refl 0) (by omega)
  obtain ⟨-, -, hall⟩ := @Net_1_encode 16385 fs Libc.bare (fun _ => 0) hne hle (Int.le_refl 0)
    (by omega)
  rw [List.filter_eq_self.2 hall, hpos] at hrec
  have hlen := congrArg List.length hrec
  rw [List.length_map, List.length_map] at hlen
  refine ⟨hne, fun f hf => ?_⟩
  rw [← Msg.map_placed fs 0] at hf
  obtain ⟨x, hx, rfl⟩ := List.mem_map.1 hf
  simpa using List.length_filter_eq_length_iff.1 hlen.symm x hx

theorem ListsRight.of_hasAddress {fs : List Msg} (hle : (Format.encode fs).length ≤ 16384)
    (hne : fs ≠ []) (hall : ∀ f ∈ fs, f.HasAddress) : ListsRight fs := by
  intro c fuel buf hc hf
  obtain ⟨hret, hpos, hrec⟩ := @Net_1_encode fuel fs c buf hne hle hc hf
  rw [Msg.reached_eq fun f hf => (hall f hf).2] at hpos
  refine ⟨hret, hpos, ?_⟩
  rw [List.filter_eq_self.2 hrec, hpos, List.filter_eq_self.2]
  intro x hx
  have hx' : x.2 ∈ (Msg.placed 0 fs).map Prod.snd := List.mem_map_of_mem hx
  rw [Msg.map_placed] at hx'
  simpa using hall x.2 hx'

/-- The calls are right exactly where every message of the datagram, one at least, tells of an
address. -/
theorem lists_right_iff {fs : List Msg} (hle : (Format.encode fs).length ≤ 16384) :
    ListsRight fs ↔ fs ≠ [] ∧ ∀ f ∈ fs, f.HasAddress :=
  ⟨fun h => h.hasAddress hle, fun h => .of_hasAddress hle h.1 h.2⟩

/-- An `RTM_NEWADDR` message that is its `ifaddrmsg` only. -/
def Msg.v6Addr (index : UInt8) : Msg where
  bytes := [24, 0, 0, 0, 20, 0, 0, 0, 0, 0, 0, 0, 0, 0, 0, 0, 10, 64, 0, 0, index, 0, 0, 0]
  padding := []
  long := Nat.le_add_right 16 8
  len_eq := rfl
  padded := by simp [netlink, Format.pad]

/-- The message that ends a dump, with its result. -/
def Msg.endOfDump : Msg where
  bytes := [20, 0, 0, 0, 3, 0, 2, 0, 0, 0, 0, 0, 0, 0, 0, 0, 0, 0, 0, 0]
  padding := []
  long := Nat.le_add_right 16 4
  len_eq := rfl
  padded := by simp [netlink, Format.pad]

theorem twoAddresses_right : ListsRight [.v6Addr 1, .v6Addr 2] :=
  (lists_right_iff (by decide)).2 ⟨by simp, by decide⟩

/-- A record for the end of the dump, and a last message that is not reached. -/
theorem endOfDump_not_right :
    ¬ ListsRight [.v6Addr 1, .endOfDump] ∧ ¬ ListsRight [.v6Addr 1, .header 20] :=
  ⟨fun h => absurd (h.hasAddress (by decide)).2 (by decide),
    fun h => absurd (h.hasAddress (by decide)).2 (by decide)⟩

/-! ## `Net_2` -/

theorem alike_Net_2_header (stale stale' : Mem) (domain : ℤ) :
    Alike (ip_header RTM_NEWADDR 2 stale domain) (ip_header RTM_DELADDR 2 stale' domain) := by
  have h0 := (alike_fill stale stale').setBytes 0 (le32 (NLMSG_LENGTH 8))
  have h1 := h0.setBytes_head (.inl rfl) 20 21 [0]
  exact (((((h1.setBytes 6 _).setBytes 16 _).setBytes 17 _).setBytes 18 _).setBytes 19 _).setBytes 20 _

theorem Net_2_add_ip_same (c : Libc) (stale stale' : Mem) (domain : ℤ) (ip : String) :
    SameRequest (Net_2_add_ip c stale domain ip) (del_ip c stale' domain ip) := by
  have hL := attrLen_cases domain
  have hlen : ∀ m, nlmsg_len (ip_message c domain ip m) 0 = 24 + attrLen domain + attrLen domain :=
    fun m => get32_set32 (by omega) _ _
  have halike := (alike_Net_2_header stale stale' domain).ip_message c domain ip
  unfold Net_2_add_ip del_ip
  rw [ip_request_eq c domain ip RTM_NEWADDR (by simp [RTM_NEWADDR]),
    ip_request_eq c domain ip RTM_DELADDR (by simp [RTM_DELADDR])]
  unfold send_message
  refine ⟨_, _, rfl, rfl, ?_, fun k h4 _ => ?_⟩
  · rw [slice_length, slice_length, hlen, hlen]
  · rw [hlen, hlen]
    by_cases h20 : k = 20
    · subst h20
      rw [List.getElem?_eq_getElem (by rw [slice_length]; omega),
        List.getElem?_eq_getElem (by rw [slice_length]; omega), getElem_slice, getElem_slice,
        Nat.zero_add, ip_message_index, ip_message_index]
      rfl
    · exact halike.slice_getElem? (by unfold BUFLEN; omega) h4 h20

/-- `Net_2` differs from `del_ip` in the type of its request only, for all arguments. What it
reports is told by the answer, also where there is none, and not by what the buffer held. -/
theorem Net_2_reports (c : Libc) {fd : ℤ} (hfd : 0 ≤ fd) (rest : List Reply) (stale buf : Mem) :
    (∀ stale' domain ip, SameRequest (Net_2_add_ip c stale domain ip) (del_ip c stale' domain ip)) ∧
      (∀ errno, Net_2 c fd (.fail errno :: rest) stale buf =
        ⟨some 1, (Net_2_add_ip c stale AF_INET NEW_IP).out ++ [.recvmsg, check_error c errno]⟩) ∧
      ∀ d : List UInt8, d.length ≤ BUFLEN → ¬ CutError d →
        Net_2 c fd (.datagram d :: rest) stale buf =
          ⟨some 0, (Net_2_add_ip c stale AF_INET NEW_IP).out ++
            .recvmsg :: verdict plain_lines c d⟩ := by
  have hno : ¬ fd < 0 := by omega
  refine ⟨fun stale' domain ip => Net_2_add_ip_same c stale stale' domain ip, fun errno => ?_,
    fun d hd hcut => ?_⟩
  · rw [Net_2, if_neg hno]
  · rw [Net_2, if_neg hno]
    exact @acknowledge_datagram plain_lines c _ d rest buf hd hcut

theorem bare_Net_2_reports : (0 : ℤ) ≤ 3 ∧
    ∀ d : List UInt8, d.length ≤ BUFLEN → ¬ CutError d →
      Net_2 Libc.bare 3 [.datagram d] (fun _ => 0) (fun _ => 255) =
        ⟨some 0, (Net_2_add_ip Libc.bare (fun _ => 0) AF_INET NEW_IP).out ++
          .recvmsg :: verdict plain_lines Libc.bare d⟩ :=
  ⟨by decide, (Net_2_reports Libc.bare (by decide) [] (fun _ => 0) fun _ => 255).2.2⟩

end NetTool
