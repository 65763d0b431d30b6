import NetTool.Proofs.LinkInfo

/-!
# Refusals and short messages in `link_info_receive`

The loop receives until it found the wanted link or an end mark (`link_info_loop_calls`), and
looks at nothing else. A failed receive, or an error message, therefore ends it only where an end
mark comes with it. The header of a link message is read whole, whatever the message's length: the
message's own bytes decide the match only where it is whole, or where an index byte of its own is
another link's (`decided_of_whole`, `whole_of_ownBytes`).
-/

namespace NetTool

open Bytes CInt Frames Loop

variable {fuel : ℕ} {i : ℤ} {m : Mem}

/-! ## The receive calls of a run -/

/-- The receive has what ends a run. -/
def answers (i : ℤ) (p : ℤ × Mem) : Bool := (linkIn i p).isSome || endIn p

/-- How many receive calls a run makes. -/
def calls (i : ℤ) : List (ℤ × Mem) → ℕ
  | [] => 1
  | p :: ps => if answers i p then 1 else calls i ps + 1

theorem link_info_loop_calls (hf : 4096 < fuel) : ∀ (rs : List Reply) (buf : Mem) (s : LinkInfo),
    s.end_ = 0 → (link_info_loop fuel i rs buf s).2.out.count .recvmsg =
      s.out.count .recvmsg + calls i (receives rs buf)
  | [], buf, s, _ => by simp [link_info_loop, receives, calls]
  | r :: rs, buf, s, hs => by
    obtain ⟨s1, hout, ⟨hl, hc⟩ | ⟨hl, -, ⟨he, hc⟩ | ⟨he, h0, hc⟩⟩⟩ :=
      link_info_loop_round (i := i) hf r rs buf hs
    · simp [hc, receives, calls, answers, hl, hout]
    · simp [hc, receives, calls, answers, hl, he, hout]
    · have ih := link_info_loop_calls hf rs (recvmsg buf BUFLEN r).2 s1 h0
      simp only [hc, receives, calls, answers, hl, he, Option.isSome_none, Bool.or_self,
        Bool.false_eq_true, if_false, ih, hout]
      omega

/-! ## Refused dumps and broken sockets -/

def isError (m : Mem) (o : ℕ) : Bool := nlmsg_type m o = NLMSG_ERROR

/-- The message at `o` is about link `i`, and all of its `ifinfomsg` lies in it. -/
def wholeLink (i : ℤ) (m : Mem) (o : ℕ) : Bool := wanted i m o ∧ 32 ≤ nlmsg_len m o

/-- The receive failed, or an error message comes in it before any whole message about link
`i`. -/
def refused (i : ℤ) (p : ℤ × Mem) : Bool :=
  p.1 < 0 ∨ ((accepted p).takeWhile fun o => !wholeLink i p.2 o).any (isError p.2)

/-- A run that takes a refused receive returns -1 with it. -/
def StopsRefused (fuel : ℕ) (i : ℤ) (replies : List Reply) (vBuffReply : Mem)
    (a_pInfomsg : ifinfomsg) : Prop :=
  let r := link_info_receive fuel replies vBuffReply i a_pInfomsg
  ∀ pre p post, receives replies vBuffReply = pre ++ p :: post →
    pre.length < r.2.out.count .recvmsg → refused i p = true →
      r.1 = some (-1) ∧ r.2.out.count .recvmsg = pre.length + 1

/-- The first receive that is refused or ends the run has an end mark and no wanted message where
it is refused. -/
def RefusalEnds (i : ℤ) (ps : List (ℤ × Mem)) : Prop :=
  ∀ p, ps.find? (fun p => refused i p || answers i p) = some p → refused i p = true →
    linkIn i p = none ∧ endIn p = true

theorem refusalEnds_cons (p : ℤ × Mem) (ps : List (ℤ × Mem)) : RefusalEnds i (p :: ps) ↔
    if refused i p then linkIn i p = none ∧ endIn p = true
    else answers i p = true ∨ RefusalEnds i ps := by
  unfold RefusalEnds
  rw [List.find?_cons]
  rcases hr : refused i p <;> rcases ha : answers i p <;> simp [hr]

theorem forall_split_cons {α : Type*} {A : List α → α → Prop} (x : α) (xs : List α) :
    (∀ pre y post, x :: xs = pre ++ y :: post → A pre y) ↔
      A [] x ∧ ∀ pre y post, xs = pre ++ y :: post → A (x :: pre) y := by
  constructor
  · intro h
    exact ⟨h [] x xs rfl, fun pre y post he => h (x :: pre) y post (by rw [he]; rfl)⟩
  · rintro ⟨h1, h2⟩ pre y post he
    rcases pre with _ | ⟨z, pre⟩
    · obtain ⟨rfl, -⟩ := List.cons.inj he
      exact h1
    · obtain ⟨rfl, he'⟩ := List.cons.inj he
      exact h2 pre y post he'

theorem calls_pos : ∀ ps : List (ℤ × Mem), 0 < calls i ps
  | [] => Nat.one_pos
  | p :: ps => by
    rw [calls]
    split_ifs <;> omega

/-- A receive that ends a run has no wanted message exactly when it answers so. -/
theorem answer_of_answers {p : ℤ × Mem} (h : answers i p = true) (ps : List (ℤ × Mem)) :
    answer i (p :: ps) = some none ↔ linkIn i p = none ∧ endIn p = true := by
  rw [answers, Bool.or_eq_true] at h
  rw [answer]
  rcases hl : linkIn i p with _ | x
  · rw [hl] at h
    have he : endIn p = true := h.resolve_left (by simp)
    simp [he]
  · simp

theorem answer_of_not_answers {p : ℤ × Mem} (h : answers i p = false) (ps : List (ℤ × Mem)) :
    answer i (p :: ps) = answer i ps := by
  rw [answers, Bool.or_eq_false_iff] at h
  have hl : linkIn i p = none := by simpa using h.1
  rw [answer, hl, h.2]
  rfl

theorem refusal_iff : ∀ ps : List (ℤ × Mem),
    (∀ pre p post, ps = pre ++ p :: post → pre.length < calls i ps → refused i p = true →
      answer i ps = some none ∧ calls i ps = pre.length + 1) ↔ RefusalEnds i ps
  | [] => by simp [RefusalEnds]
  | p :: ps => by
    have ih := refusal_iff ps
    have hpos := @calls_pos i ps
    rw [refusalEnds_cons, forall_split_cons (A := fun pre q => pre.length < calls i (p :: ps) →
      refused i q = true → answer i (p :: ps) = some none ∧ calls i (p :: ps) = pre.length + 1)]
    rcases ha : answers i p
    · have hc : calls i (p :: ps) = calls i ps + 1 := by
        rw [calls, ha]
        rfl
      rw [answers, Bool.or_eq_false_iff] at ha
      rw [answer_of_not_answers (by rw [answers, ha.1, ha.2]; rfl), hc, ha.2]
      rcases hr : refused i p
      · simp [← ih]
      · simp [hpos.ne']
    · have hc : calls i (p :: ps) = 1 := by
        rw [calls, ha]
        rfl
      rw [answer_of_answers ha, hc]
      rcases hr : refused i p
      · simp
      · simp

/-- A run of `link_info_receive` stops with the first refused receive it takes exactly when that
has an end mark and no wanted message. -/
theorem link_info_refused_iff (hf : 4096 < fuel) (replies : List Reply) (vBuffReply : Mem) (i : ℤ)
    (a_pInfomsg : ifinfomsg) : StopsRefused fuel i replies vBuffReply a_pInfomsg ↔
      RefusalEnds i (receives replies vBuffReply) := by
  obtain ⟨hret, -⟩ := link_info_loop_answer (i := i) hf replies vBuffReply ⟨0, a_pInfomsg, []⟩ rfl
  have hcalls := @link_info_loop_calls fuel i hf replies vBuffReply ⟨0, a_pInfomsg, []⟩ rfl
  rw [← refusal_iff]
  unfold StopsRefused link_info_receive
  dsimp only
  have hmap : ∀ a : Option (Option ifinfomsg),
      a.map (fun x => if x = none then (-1 : ℤ) else 0) = some (-1) ↔ a = some none := by
    rintro (_ | _ | x)
    · simp
    · simp
    · simp
  rw [hret, hcalls, List.count_nil, Nat.zero_add, hmap]

theorem refusedAtEnd_stops : 4096 < 4097 ∧ StopsRefused 4097 4
    [.ofMsgs [Msg.newLink 2 3, Msg.header 2, Msg.header 3]] (fun _ => 255) .zero := by
  have hf : 4096 < 4097 := by omega
  refine ⟨hf, (link_info_refused_iff hf _ _ _ _).2 ?_⟩
  intro p hp _
  obtain rfl := Option.some.inj hp
  decide

/-- An error message alone, and a failed receive. -/
theorem refusal_not_stops :
    ¬ StopsRefused 4097 4 [.ofMsgs [Msg.header 2]] (fun _ => 255) .zero ∧
      ¬ StopsRefused 4097 4 [.fail 104] (fun _ => 255) .zero := by
  constructor
  · intro h
    have := (h [] _ [] rfl (by decide) (by decide)).1
    revert this
    decide
  · intro h
    have := (h [] _ [] rfl (by decide) (by decide)).1
    revert this
    decide

/-! ## Short messages -/

/-- A run comes to the message at `o` of the receive `p`. -/
def Visits (i : ℤ) (ps : List (ℤ × Mem)) (p : ℤ × Mem) (o : ℕ) : Prop :=
  ∃ pre post os os', ps = pre ++ p :: post ∧ accepted p = os ++ o :: os' ∧
    (∀ q ∈ pre, answers i q = false) ∧ ∀ o' ∈ os, wanted i p.2 o' = false

/-- What a run makes of the message at `o` rests on the message's own bytes. -/
def OwnBytes (fuel : ℕ) (i : ℤ) (m : Mem) (o : ℕ) : Prop :=
  ∀ m', (∀ a, o ≤ a → a < o + nlmsg_len m o → m' a = m a) → ∀ s,
    (link_info_message fuel i m' o s).2 = (link_info_message fuel i m o s).2 ∧
      (link_info_message fuel i m' o s).1.a_pInfomsg =
        (link_info_message fuel i m o s).1.a_pInfomsg ∧
      (link_info_message fuel i m' o s).1.end_ = (link_info_message fuel i m o s).1.end_

/-- What a run stores is the header of a whole link message it received, what it makes of a
message rests on the message's own bytes, and what it answers does not rest on the buffer's old
ones. -/
structure KeepsToMessages (fuel : ℕ) (i : ℤ) (replies : List Reply) (vBuffReply : Mem)
    (a_pInfomsg : ifinfomsg) : Prop where
  found : (link_info_receive fuel replies vBuffReply i a_pInfomsg).1 = some 0 →
    ∃ p o, Visits i (receives replies vBuffReply) p o ∧ nlmsg_type p.2 o = RTM_NEWLINK ∧
      32 ≤ nlmsg_len p.2 o ∧ ((o + nlmsg_len p.2 o : ℕ) : ℤ) ≤ p.1 ∧
      (link_info_receive fuel replies vBuffReply i a_pInfomsg).2.a_pInfomsg =
        ifinfomsg.at p.2 (NLMSG_DATA o)
  own : ∀ p o, Visits i (receives replies vBuffReply) p o → OwnBytes fuel i p.2 o
  stale : ∀ old,
    (link_info_receive fuel replies old i a_pInfomsg).1 =
        (link_info_receive fuel replies vBuffReply i a_pInfomsg).1 ∧
      (link_info_receive fuel replies old i a_pInfomsg).2.a_pInfomsg =
        (link_info_receive fuel replies vBuffReply i a_pInfomsg).2.a_pInfomsg

/-- A link message has all of its `ifinfomsg`, or an index byte of its own that is not link
`i`'s. -/
def Whole (i : ℤ) (m : Mem) (o : ℕ) : Prop :=
  nlmsg_type m o = RTM_NEWLINK → 32 ≤ nlmsg_len m o ∨
    ∃ k < 4, 20 + k < nlmsg_len m o ∧ m (o + (20 + k)) ≠ (le32 (u32 i)).getD k 0

theorem link_info_message_eq (o : ℕ) (s : LinkInfo) :
    (link_info_message fuel i m o s).2 = (if wanted i m o then some () else none) ∧
      (link_info_message fuel i m o s).1.a_pInfomsg =
        (if wanted i m o then ifinfomsg.at m (NLMSG_DATA o) else s.a_pInfomsg) ∧
      (link_info_message fuel i m o s).1.end_ = if isEnd m o then s.end_ + 1 else s.end_ := by
  unfold link_info_message isEnd wanted
  dsimp only
  split_ifs <;> simp_all [newlink_ne_done, newlink_ne_done.symm]

/-- The index that is compared, by its bytes. -/
theorem index_eq_iff (hi : i32 i = i) (o : ℕ) :
    i = (ifinfomsg.at m (NLMSG_DATA o)).ifi_index ↔ slice m (o + 20) 4 = le32 (u32 i) := by
  have hat : (ifinfomsg.at m (NLMSG_DATA o)).ifi_index = i32 (get32 m (o + 20)) := rfl
  rw [hat]
  constructor
  · intro h
    have hu : u32 i = get32 m (o + 20) := by
      have := get32_lt m (o + 20)
      rw [h]
      unfold u32 i32
      omega
    rw [hu, le32_get32]
  · intro h
    rw [get32_le32 (u32_lt i) h, i32_u32, hi]

theorem ne_index_of_byte (hi : i32 i = i) {o k : ℕ} (hk : k < 4)
    (hne : m (o + (20 + k)) ≠ (le32 (u32 i)).getD k 0) :
    i ≠ (ifinfomsg.at m (NLMSG_DATA o)).ifi_index := by
  intro h
  have hs := (index_eq_iff hi o).1 h
  have hk' : k < (le32 (u32 i)).length := by rwa [length_le32]
  have hb := byte_of_slice hs hk'
  rw [Nat.add_assoc] at hb
  refine hne ?_
  rw [hb, List.getD_eq_getElem?_getD, List.getElem?_eq_getElem hk', Option.getD_some]

theorem type_of_agree {m' : Mem} {o : ℕ} (h16 : 16 ≤ nlmsg_len m o)
    (hm : ∀ a, o ≤ a → a < o + nlmsg_len m o → m' a = m a) :
    nlmsg_type m' o = nlmsg_type m o :=
  get16_congr fun a h1 h2 => hm a (by omega) (by omega)

/-- The message's own bytes decide whether it is a match, and what is then stored. -/
theorem decided_of_whole {m' : Mem} {o : ℕ} (hi : i32 i = i) (h16 : 16 ≤ nlmsg_len m o)
    (h : Whole i m o) (hm : ∀ a, o ≤ a → a < o + nlmsg_len m o → m' a = m a) :
    wanted i m' o = wanted i m o ∧ (wanted i m o = true →
      ifinfomsg.at m' (NLMSG_DATA o) = ifinfomsg.at m (NLMSG_DATA o)) := by
  unfold wanted
  rw [type_of_agree h16 hm]
  by_cases ht : nlmsg_type m o = RTM_NEWLINK
  · rcases h ht with h32 | ⟨k, hk, hlen, hne⟩
    · have hat : ifinfomsg.at m' (NLMSG_DATA o) = ifinfomsg.at m (NLMSG_DATA o) := by
        unfold ifinfomsg.at NLMSG_DATA NLMSG_LENGTH get8
        rw [hm _ (by omega) (by omega), hm _ (by omega) (by omega),
          @get16_congr m' m _ fun a h1 h2 => hm a (by omega) (by omega),
          @get32_congr m' m _ fun a h1 h2 => hm a (by omega) (by omega),
          @get32_congr m' m _ fun a h1 h2 => hm a (by omega) (by omega),
          @get32_congr m' m _ fun a h1 h2 => hm a (by omega) (by omega)]
      simp only [hat, implies_true, and_self]
    · have hne' : m' (o + (20 + k)) ≠ (le32 (u32 i)).getD k 0 := by
        rwa [hm _ (by omega) (by omega)]
      simp only [ht, ne_index_of_byte hi hk hne, ne_index_of_byte hi hk hne', decide_false,
        and_false, Bool.false_eq_true, false_implies, and_self]
  · simp only [ht, false_and, decide_false, Bool.false_eq_true, false_implies, and_self]

theorem ownBytes_of_whole {o : ℕ} (hi : i32 i = i) (h16 : 16 ≤ nlmsg_len m o)
    (h : Whole i m o) : OwnBytes fuel i m o := by
  intro m' hm s
  obtain ⟨hw, hat⟩ := decided_of_whole hi h16 h hm
  obtain ⟨h1, h2, h3⟩ := @link_info_message_eq fuel i m o s
  obtain ⟨h1', h2', h3'⟩ := @link_info_message_eq fuel i m' o s
  have hend : isEnd m' o = isEnd m o := by
    unfold isEnd
    rw [type_of_agree h16 hm]
  rw [h1, h2, h3, h1', h2', h3', hw, hend]
  refine ⟨rfl, ?_, rfl⟩
  split_ifs with hwt
  · exact hat hwt
  · rfl

/-- Writing bytes that agree with a memory below `e` leaves it as it was there. -/
theorem setBytes_below {bs : List UInt8} {b e : ℕ}
    (h : ∀ k < bs.length, b + k < e → m (b + k) = bs.getD k 0) {a : ℕ} (ha : a < e) :
    setBytes m b bs a = m a := by
  by_cases hap : Apart a 1 b bs.length
  · exact setBytes_apart hap
  · unfold Apart at hap
    obtain ⟨k, rfl⟩ : ∃ k, a = b + k := ⟨a - b, by omega⟩
    have hk : k < bs.length := by omega
    rw [h k hk ha, setBytes, if_pos (by omega), Nat.add_sub_cancel_left]
    simp only [List.getD_eq_getElem?_getD, List.getElem?_eq_getElem hk, Option.getD_some]

/-- The last byte of an `ifinfomsg` is in it. -/
theorem ifinfomsg_last {m' : Mem} {o : ℕ}
    (h : ifinfomsg.at m (NLMSG_DATA o) = ifinfomsg.at m' (NLMSG_DATA o)) :
    m (o + 31) = m' (o + 31) := by
  have hchange : get32 m (o + 28) = get32 m' (o + 28) := congrArg ifinfomsg.ifi_change h
  have hbytes : slice m (o + 28) 4 = slice m' (o + 28) 4 := by
    rw [← le32_get32, ← le32_get32, hchange]
  exact byte_of_slice_eq (k := 3) hbytes (by omega)

theorem wanted_of_index {m' : Mem} {o : ℕ} (hi : i32 i = i) (h16 : 16 ≤ nlmsg_len m o)
    (ht : nlmsg_type m o = RTM_NEWLINK) (hm : ∀ a, o ≤ a → a < o + nlmsg_len m o → m' a = m a)
    (hidx : slice m' (o + 20) 4 = le32 (u32 i)) : wanted i m' o = true := by
  rw [wanted, type_of_agree h16 hm, decide_eq_true_eq, index_eq_iff hi]
  exact ⟨ht, hidx⟩

/-- A short message whose own index bytes are link `i`'s is a match, or none, by what stands behind
it. -/
theorem whole_of_ownBytes {o : ℕ} (hi : i32 i = i) (h16 : 16 ≤ nlmsg_len m o)
    (h : OwnBytes fuel i m o) : Whole i m o := by
  intro ht
  by_contra hn
  obtain ⟨h32, hown⟩ := not_or.1 hn
  obtain ⟨m1, hm1⟩ : ∃ m1, m1 = setBytes m (o + 20) (le32 (u32 i)) := ⟨_, rfl⟩
  obtain ⟨m2, hm2⟩ : ∃ m2, m2 = setBytes m1 (o + 31) [m1 (o + 31) + 1] := ⟨_, rfl⟩
  have hagree1 : ∀ a, o ≤ a → a < o + nlmsg_len m o → m1 a = m a := by
    intro a _ ha
    rw [hm1]
    refine setBytes_below (fun k hk hlt => ?_) ha
    rw [length_le32] at hk
    by_contra hne
    rw [Nat.add_assoc] at hlt hne
    exact hown ⟨k, hk, by omega, hne⟩
  have hagree2 : ∀ a, o ≤ a → a < o + nlmsg_len m o → m2 a = m a := by
    intro a h1 h2
    rw [hm2, setBytes_apart, hagree1 a h1 h2]
    unfold Apart
    omega
  have hidx1 : slice m1 (o + 20) 4 = le32 (u32 i) := by
    rw [hm1]
    exact slice_setBytes m (o + 20) (le32 (u32 i))
  have hidx2 : slice m2 (o + 20) 4 = le32 (u32 i) := by
    rw [hm2, slice_setBytes_apart, hidx1]
    unfold Apart
    omega
  have hinfo : ifinfomsg.at m1 (NLMSG_DATA o) = ifinfomsg.at m2 (NLMSG_DATA o) := by
    have e1 := (h m1 hagree1 ⟨0, .zero, []⟩).2.1
    have e2 := (h m2 hagree2 ⟨0, .zero, []⟩).2.1
    rwa [← e2, (link_info_message_eq o _).2.1, (link_info_message_eq o _).2.1,
      wanted_of_index hi h16 ht hagree1 hidx1, wanted_of_index hi h16 ht hagree2 hidx2] at e1
  have hlast := ifinfomsg_last hinfo
  rw [hm2, setBytes, if_pos le_rfl, Nat.sub_self] at hlast
  have hnat := congrArg UInt8.toNat hlast
  simp only [List.getD_cons_zero, UInt8.toNat_add, UInt8.toNat_one] at hnat
  have := (m1 (o + 31)).toNat_lt
  omega

section Visits

variable {p q : ℤ × Mem} {ps : List (ℤ × Mem)} {o : ℕ}

theorem accepted_bounds (ho : o ∈ accepted p) :
    16 ≤ nlmsg_len p.2 o ∧ ((o + nlmsg_len p.2 o : ℕ) : ℤ) ≤ p.1 := by
  obtain ⟨h1, h2⟩ := message_bounds ho
  omega

theorem Visits.bounds (h : Visits i ps p o) :
    16 ≤ nlmsg_len p.2 o ∧ ((o + nlmsg_len p.2 o : ℕ) : ℤ) ≤ p.1 := by
  obtain ⟨-, -, os, os', -, ha, -, -⟩ := h
  exact accepted_bounds (by simp [ha])

theorem Visits.cons (h : Visits i ps q o) (hp : answers i p = false) : Visits i (p :: ps) q o := by
  obtain ⟨pre, post, os, os', rfl, ha, hpre, hos⟩ := h
  exact ⟨p :: pre, post, os, os', rfl, ha, List.forall_mem_cons.2 ⟨hp, hpre⟩, hos⟩

theorem visits_head {os os' : List ℕ} (ha : accepted p = os ++ o :: os')
    (hos : ∀ o' ∈ os, wanted i p.2 o' = false) : Visits i (p :: ps) p o :=
  ⟨[], ps, os, os', rfl, ha, fun _ h => absurd h List.not_mem_nil, hos⟩

/-- A run answers with the first message about link `i` that it comes to. -/
theorem answer_of_visits (h : Visits i ps p o) (hw : wanted i p.2 o = true) :
    answer i ps = some (some (ifinfomsg.at p.2 (NLMSG_DATA o))) := by
  obtain ⟨pre, post, os, os', rfl, ha, hpre, hos⟩ := h
  induction pre with
  | nil =>
    have hos' : os.find? (wanted i p.2) = none :=
      List.find?_eq_none.2 fun o' ho' => by simp [hos o' ho']
    have hl : linkIn i p = some (ifinfomsg.at p.2 (NLMSG_DATA o)) := by
      rw [linkIn, ha, List.find?_append, hos', Option.none_or, List.find?_cons_of_pos hw]
      rfl
    rw [List.nil_append, answer, hl]
  | cons q pre ih =>
    obtain ⟨hq, hpre'⟩ := List.forall_mem_cons.1 hpre
    rw [List.cons_append, answer_of_not_answers hq]
    exact ih hpre'

/-- The run came to the message it answers with. -/
theorem visits_of_answer {x : ifinfomsg} : ∀ ps : List (ℤ × Mem), answer i ps = some (some x) →
    ∃ p o, Visits i ps p o ∧ wanted i p.2 o = true ∧ ifinfomsg.at p.2 (NLMSG_DATA o) = x
  | [], h => by cases h
  | p :: ps, h => by
    rcases ha : answers i p
    · rw [answer_of_not_answers ha] at h
      obtain ⟨q, o, hv, hq⟩ := visits_of_answer ps h
      exact ⟨q, o, hv.cons ha, hq⟩
    · rw [answer] at h
      rcases hl : linkIn i p with _ | y
      · rw [hl] at h
        dsimp only at h
        split_ifs at h
        · cases h
        · rw [answers, hl] at ha
          exact absurd ha ‹_›
      · rw [hl] at h
        obtain rfl : y = x := Option.some.inj (Option.some.inj h)
        obtain ⟨o, ho, hat⟩ := Option.map_eq_some_iff.1 hl
        obtain ⟨hw, os, os', hos, hpre⟩ := List.find?_eq_some_iff_append.1 ho
        exact ⟨p, o, visits_head hos fun o' ho' => by simpa using hpre o' ho', hw, hat⟩

end Visits

/-- Searches that agree as far as they go find the same. -/
theorem find?_map_congr {α β : Type*} {f g : α → Bool} {x y : α → β} : ∀ as : List α,
    (∀ pre a post, as = pre ++ a :: post → (∀ b ∈ pre, g b = false) →
      f a = g a ∧ (g a = true → x a = y a)) → (as.find? f).map x = (as.find? g).map y
  | [], _ => rfl
  | a :: as, h => by
    obtain ⟨hfg, hxy⟩ := h [] a as rfl fun _ hb => absurd hb List.not_mem_nil
    rw [List.find?_cons, List.find?_cons, hfg]
    rcases hg : g a
    · exact find?_map_congr as fun pre b post he hpre => h (a :: pre) b post (by rw [he]; rfl)
        (List.forall_mem_cons.2 ⟨hg, hpre⟩)
    · exact congrArg some (hxy hg)

theorem recvmsg_stale (r : Reply) (buf old : Mem) :
    (recvmsg old BUFLEN r).1 = (recvmsg buf BUFLEN r).1 ∧
      ∀ a < (recvmsg buf BUFLEN r).1.toNat,
        (recvmsg old BUFLEN r).2 a = (recvmsg buf BUFLEN r).2 a := by
  rcases r with e | bytes
  · exact ⟨rfl, fun a ha => absurd ha (Nat.not_lt_zero a)⟩
  · refine ⟨rfl, fun a ha => ?_⟩
    exact (overlay_of_lt ha).trans (overlay_of_lt ha).symm

section Stale

variable {p p' : ℤ × Mem} (hlen : p'.1 = p.1) (hbytes : ∀ a < p.1.toNat, p'.2 a = p.2 a)

include hlen hbytes

theorem accepted_stale : accepted p' = accepted p := by
  rw [accepted, hlen]
  exact Format.offsets_congr _ _ fun a _ ha => hbytes a (by omega)

theorem linkIn_stale (hi : i32 i = i) {ps : List (ℤ × Mem)}
    (h : ∀ o, Visits i (p :: ps) p o → Whole i p.2 o) : linkIn i p' = linkIn i p := by
  rw [linkIn, accepted_stale hlen hbytes]
  refine find?_map_congr _ fun os o os' he hos => ?_
  have hv : Visits i (p :: ps) p o := visits_head he hos
  obtain ⟨h16, hle⟩ := hv.bounds
  exact decided_of_whole hi h16 (h o hv) fun a _ ha => hbytes a (by omega)

theorem endIn_stale : endIn p' = endIn p := by
  rw [endIn, accepted_stale hlen hbytes, endIn, Bool.eq_iff_iff, List.any_eq_true,
    List.any_eq_true]
  refine exists_congr fun o => and_congr_right fun ho => ?_
  obtain ⟨h16, hle⟩ := accepted_bounds ho
  rw [isEnd, type_of_agree h16 fun a _ ha => hbytes a (by omega), isEnd]

end Stale

/-- Where no message takes anything from behind it, the old bytes of the buffer do not count. -/
theorem answer_stale (hi : i32 i = i) : ∀ (rs : List Reply) (buf old : Mem),
    (∀ p o, Visits i (receives rs buf) p o → Whole i p.2 o) →
      answer i (receives rs old) = answer i (receives rs buf)
  | [], _, _, _ => rfl
  | r :: rs, buf, old, h => by
    obtain ⟨hlen, hbytes⟩ := recvmsg_stale r buf old
    rw [receives] at h
    rw [receives, receives]
    generalize recvmsg buf BUFLEN r = p at h hlen hbytes ⊢
    generalize recvmsg old BUFLEN r = p' at h hlen hbytes ⊢
    have hlink : linkIn i p' = linkIn i p := linkIn_stale hlen hbytes hi fun o hv => h p o hv
    have hend : endIn p' = endIn p := endIn_stale hlen hbytes
    rcases ha : answers i p
    · have ha' : answers i p' = false := by rw [answers, hlink, hend, ← ha, answers]
      rw [answer_of_not_answers ha, answer_of_not_answers ha']
      exact answer_stale hi rs p.2 p'.2 fun q o hv => h q o (hv.cons ha)
    · rw [answers, Bool.or_eq_true] at ha
      rw [answer, answer, hlink, hend]
      rcases hl : linkIn i p with _ | x
      · rw [hl] at ha
        rw [ha.resolve_left (by simp)]
        rfl
      · rfl

/-- A run of `link_info_receive` keeps to the messages it received exactly when every link message
it comes to is whole, or too short but told from the wanted one by its own bytes. -/
theorem link_info_keeps_iff (hf : 4096 < fuel) (hi : i32 i = i) (replies : List Reply)
    (vBuffReply : Mem) (a_pInfomsg : ifinfomsg) :
    KeepsToMessages fuel i replies vBuffReply a_pInfomsg ↔
      ∀ p o, Visits i (receives replies vBuffReply) p o → Whole i p.2 o := by
  have hrun := fun buf => @link_info_loop_answer fuel i hf replies buf ⟨0, a_pInfomsg, []⟩ rfl
  constructor
  · intro h p o hv
    exact whole_of_ownBytes hi hv.bounds.1 (h.own p o hv)
  · intro h
    refine ⟨fun hret => ?_, fun p o hv => ownBytes_of_whole hi hv.bounds.1 (h p o hv),
      fun old => ?_⟩
    · obtain ⟨h1, h2⟩ := hrun vBuffReply
      unfold link_info_receive at hret ⊢
      rw [h1] at hret
      rcases ha : answer i (receives replies vBuffReply) with _ | _ | x
      · rw [ha] at hret
        cases hret
      · rw [ha] at hret
        cases hret
      · obtain ⟨p, o, hv, hw, rfl⟩ := visits_of_answer _ ha
        rw [ha] at h2
        simp only [wanted, decide_eq_true_eq] at hw
        refine ⟨p, o, hv, hw.1, ?_, hv.bounds.2, h2⟩
        rcases h p o hv hw.1 with h32 | ⟨k, hk, hlen, hne⟩
        · exact h32
        · exact absurd hw.2 (ne_index_of_byte hi hk hne)
    · obtain ⟨h1, h2⟩ := hrun vBuffReply
      obtain ⟨h1', h2'⟩ := hrun old
      unfold link_info_receive
      rw [h1, h2, h1', h2', answer_stale hi replies vBuffReply old h]
      exact ⟨rfl, rfl⟩

theorem twoLinks_whole : ∀ p ∈ receives (twoLinksSplit.datagrams.map .ofMsgs) (fun _ => 255),
    ∀ o ∈ accepted p, nlmsg_type p.2 o = RTM_NEWLINK → 32 ≤ nlmsg_len p.2 o := by decide

theorem twoLinks_keeps : 4096 < 4097 ∧ i32 4 = 4 ∧
    KeepsToMessages 4097 4 (twoLinksSplit.datagrams.map .ofMsgs) (fun _ => 255) .zero := by
  have hf : 4096 < 4097 := by omega
  have hi : i32 4 = 4 := by simp [i32]
  refine ⟨hf, hi, (link_info_keeps_iff hf hi _ _ _).2 ?_⟩
  rintro p o ⟨pre, post, os, os', hps, ha, -, -⟩ ht
  exact .inl (twoLinks_whole p (by simp [hps]) o (by simp [ha]) ht)

/-- A header alone, where the buffer held a message about link 4. -/
theorem staleLink_not_keeps : ¬ KeepsToMessages 4097 4 [.ofMsgs [Msg.header 16]]
    (ofList (Msg.newLink 4 1).bytes) .zero := by
  intro h
  have hret := (h.stale fun _ => 0).1
  revert hret
  decide

end NetTool
