import Mathlib.Tactic.Push
import NetTool.IpLink

/-!
# The watcher thread

`nettool_link_notify` sets `g_ModuleInit` at the first call with acceptable arguments, whether
`pthread_create` succeeded there or not. From then on it creates no thread and returns 0 for every
acceptable call, so a run is right exactly when that first creation succeeds or no acceptable call
follows it.
-/

namespace NetTool

/-- The arguments `nettool_link_notify` accepts. -/
def NotifyArgs.Valid (a : NotifyArgs) : Prop :=
  ¬ (a.a_DeviceName = none ∨ a.a_DeviceName = some "" ∨ a.a_pfunction = 0 ∨ a.a_FlagToCheck = 0)

instance (a : NotifyArgs) : Decidable a.Valid := inferInstanceAs (Decidable (¬ _))

/-- Whenever a call returns 0 the thread was created by it or before it, and at most one creation
succeeds. -/
def ThreadRuns (rs : List Notified) : Prop :=
  (∀ pre r post, rs = pre ++ r :: post → r.ret = 0 →
    ∃ q ∈ pre ++ [r], q.pthread_create = some 0) ∧
    rs.countP (fun r => r.pthread_create = some 0) ≤ 1

section Step

variable {a : NotifyArgs} {g created : ℤ}

theorem nettool_link_notify_of_not_valid (h : ¬ a.Valid) :
    nettool_link_notify g a created = (⟨-1, none⟩, g) := by
  unfold NotifyArgs.Valid at h
  rw [not_not] at h
  simp [nettool_link_notify, h]

theorem nettool_link_notify_first (h : a.Valid) :
    nettool_link_notify 0 a created = (⟨created, some created⟩, 1) := by
  unfold NotifyArgs.Valid at h
  unfold nettool_link_notify ip_link_add_notification
  dsimp only
  rw [if_neg h]
  by_cases hc : created = 0
  · simp [hc]
  · simp [hc]

theorem nettool_link_notify_later (h : a.Valid) (hg : g ≠ 0) :
    nettool_link_notify g a created = (⟨0, none⟩, g) := by
  unfold NotifyArgs.Valid at h
  unfold nettool_link_notify ip_link_add_notification
  dsimp only
  rw [if_neg h]
  simp [hg]

end Step

theorem notifyRun_of_not_valid {g : ℤ} : ∀ {calls : List (NotifyArgs × ℤ)} (rest),
    (∀ c ∈ calls, ¬ c.1.Valid) → notifyRun g (calls ++ rest) =
      calls.map (fun _ => ⟨-1, none⟩) ++ notifyRun g rest
  | [], _, _ => rfl
  | (a, created) :: calls, rest, h => by
    rw [List.cons_append, notifyRun, nettool_link_notify_of_not_valid (h _ List.mem_cons_self)]
    dsimp only
    rw [notifyRun_of_not_valid rest fun c hc => h c (List.mem_cons_of_mem _ hc)]
    rfl

/-- Once the flag is set no thread is created, and acceptable calls return 0. -/
theorem notifyRun_init {g : ℤ} (hg : g ≠ 0) : ∀ (calls : List (NotifyArgs × ℤ)),
    (∀ r ∈ notifyRun g calls, r.pthread_create = none) ∧
      ((∃ r ∈ notifyRun g calls, r.ret = 0) ↔ ∃ c ∈ calls, c.1.Valid)
  | [] => by simp [notifyRun]
  | (a, created) :: calls => by
    obtain ⟨h1, h2⟩ := notifyRun_init hg calls
    rw [notifyRun]
    by_cases ha : a.Valid
    · rw [nettool_link_notify_later ha hg]
      simpa [ha] using h1
    · rw [nettool_link_notify_of_not_valid ha]
      refine ⟨by simpa using h1, ?_⟩
      simpa [ha] using h2

/-- Either no call is acceptable or there is a first one. -/
theorem first_valid (calls : List (NotifyArgs × ℤ)) : (∀ c ∈ calls, ¬ c.1.Valid) ∨
    ∃ pre c post, calls = pre ++ c :: post ∧ (∀ d ∈ pre, ¬ d.1.Valid) ∧ c.1.Valid := by
  induction calls with
  | nil => exact .inl (by simp)
  | cons c calls ih =>
    by_cases hc : c.1.Valid
    · exact .inr ⟨[], c, calls, rfl, by simp, hc⟩
    · rcases ih with h | ⟨pre, d, post, rfl, h1, h2⟩
      · exact .inl (List.forall_mem_cons.2 ⟨hc, h⟩)
      · exact .inr ⟨c :: pre, d, post, rfl, List.forall_mem_cons.2 ⟨hc, h1⟩, h2⟩

theorem first_valid_unique {pre pre' post post' : List (NotifyArgs × ℤ)} {c c' : NotifyArgs × ℤ}
    (h : pre ++ c :: post = pre' ++ c' :: post') (hp : ∀ d ∈ pre, ¬ d.1.Valid)
    (hp' : ∀ d ∈ pre', ¬ d.1.Valid) (hc : c.1.Valid) (hc' : c'.1.Valid) :
    c = c' ∧ post = post' := by
  induction pre generalizing pre' with
  | nil =>
    rcases pre' with _ | ⟨d, pre'⟩
    · exact List.cons.inj h
    · exact absurd ((List.cons.inj h).1 ▸ hc) (hp' d List.mem_cons_self)
  | cons d pre ih =>
    rcases pre' with _ | ⟨d', pre'⟩
    · exact absurd ((List.cons.inj h).1 ▸ hc') (hp d List.mem_cons_self)
    · exact ih (List.cons.inj h).2 (fun e he => hp e (List.mem_cons_of_mem _ he))
        fun e he => hp' e (List.mem_cons_of_mem _ he)

/-- What a run does to the results: rejections, the first acceptable call, and the run with the
flag set. -/
theorem notifyRun_split {pre post : List (NotifyArgs × ℤ)} {c : NotifyArgs × ℤ}
    (hp : ∀ d ∈ pre, ¬ d.1.Valid) (hc : c.1.Valid) :
    notifyRun 0 (pre ++ c :: post) =
      pre.map (fun _ => ⟨-1, none⟩) ++ ⟨c.2, some c.2⟩ :: notifyRun 1 post := by
  rw [notifyRun_of_not_valid _ hp, notifyRun, nettool_link_notify_first hc]

section Split

variable {n : ℕ} {created : ℤ} {rs : List Notified}

theorem created_at_most_once (hrs : ∀ r ∈ rs, r.pthread_create = none) :
    (List.replicate n (⟨-1, none⟩ : Notified) ++ ⟨created, some created⟩ :: rs).countP
      (fun r => r.pthread_create = some 0) ≤ 1 := by
  have h0 : rs.countP (fun r => r.pthread_create = some 0) = 0 := by
    rw [List.countP_eq_zero]
    intro r hr
    simp [hrs r hr]
  rw [List.countP_append, List.countP_cons, h0]
  simp [List.countP_replicate]
  split_ifs <;> omega

/-- Without a created thread no result in the run is one of a creation that succeeded. -/
theorem not_created (hc : created ≠ 0) (hrs : ∀ r ∈ rs, r.pthread_create = none) :
    ∀ q ∈ List.replicate n (⟨-1, none⟩ : Notified) ++ ⟨created, some created⟩ :: rs,
      q.pthread_create ≠ some 0 := by
  intro q hq h0
  simp only [List.mem_append, List.mem_replicate, List.mem_cons] at hq
  rcases hq with ⟨-, rfl⟩ | rfl | hq
  · cases h0
  · exact hc (Option.some.inj h0)
  · rw [hrs q hq] at h0
    cases h0

theorem threadRuns_split (hrs : ∀ r ∈ rs, r.pthread_create = none) :
    ThreadRuns (List.replicate n ⟨-1, none⟩ ++ ⟨created, some created⟩ :: rs) ↔
      created = 0 ∨ ∀ r ∈ rs, r.ret ≠ 0 := by
  refine ⟨fun ⟨h, _⟩ => ?_, fun h => ⟨fun pre r post he hr => ?_, created_at_most_once hrs⟩⟩
  · by_contra hn
    push Not at hn
    obtain ⟨hc, r, hr, hr0⟩ := hn
    obtain ⟨us, vs, rfl⟩ := List.append_of_mem hr
    obtain ⟨q, hq, hq0⟩ := h (List.replicate n ⟨-1, none⟩ ++ ⟨created, some created⟩ :: us) r vs
      (by simp) hr0
    refine not_created (n := n) hc hrs q ?_ hq0
    rw [List.append_assoc, List.cons_append] at hq
    simp only [List.mem_append, List.mem_cons, List.not_mem_nil, or_false] at hq ⊢
    tauto
  · rcases List.append_eq_append_iff.1 he with ⟨ts, rfl, h2⟩ | ⟨ts, h1, h2⟩
    · rcases ts with _ | ⟨t, ts⟩
      · obtain ⟨rfl, -⟩ := List.cons.inj h2
        exact ⟨⟨created, some created⟩, by simp, congrArg some hr⟩
      · obtain ⟨rfl, rfl⟩ := List.cons.inj h2
        rcases h with rfl | h
        · exact ⟨⟨0, some 0⟩, by simp, rfl⟩
        · exact absurd hr (h r (by simp))
    · rcases ts with _ | ⟨t, ts⟩
      · obtain ⟨rfl, -⟩ := List.cons.inj h2
        exact ⟨⟨created, some created⟩, by simp, congrArg some hr⟩
      · obtain ⟨rfl, -⟩ := List.cons.inj h2
        have : r ∈ List.replicate n (⟨-1, none⟩ : Notified) := by simp [h1]
        rw [(List.mem_replicate.1 this).2] at hr
        cases hr

end Split

/-- A run is right exactly when its first acceptable call creates the thread or is the last
acceptable call. -/
theorem notify_threadRuns_iff (calls : List (NotifyArgs × ℤ)) :
    ThreadRuns (notifyRun 0 calls) ↔
      ∀ pre c post, calls = pre ++ c :: post → (∀ d ∈ pre, ¬ d.1.Valid) → c.1.Valid →
        c.2 = 0 ∨ ∀ d ∈ post, ¬ d.1.Valid := by
  rcases first_valid calls with h | ⟨pre, c, post, rfl, hp, hc⟩
  · have hrun : notifyRun 0 calls = List.replicate calls.length ⟨-1, none⟩ := by
      have := notifyRun_of_not_valid (g := 0) [] h
      simpa [notifyRun, List.map_const'] using this
    refine ⟨fun _ pre c post he _ hc => ?_, fun _ => ?_⟩
    · exact absurd hc (h c (by simp [he]))
    · rw [hrun]
      refine ⟨fun pre r post he hr => ?_, by simp [List.countP_replicate]⟩
      have : r ∈ List.replicate calls.length (⟨-1, none⟩ : Notified) := by simp [he]
      rw [(List.mem_replicate.1 this).2] at hr
      cases hr
  · obtain ⟨h1, h2⟩ := notifyRun_init (g := 1) Int.one_ne_zero post
    have hlater : (∀ r ∈ notifyRun 1 post, r.ret ≠ 0) ↔ ∀ d ∈ post, ¬ d.1.Valid := by
      have := not_congr h2
      push Not at this
      exact this
    rw [notifyRun_split hp hc, List.map_const', threadRuns_split h1, hlater]
    refine ⟨fun h pre' c' post' he hp' hc' => ?_, fun h => h pre c post rfl hp hc⟩
    obtain ⟨rfl, rfl⟩ := first_valid_unique he hp hp' hc hc'
    exact h

/-- The first creation fails, and the second call returns 0. -/
theorem failedCreation_not_threadRuns :
    ¬ ThreadRuns (notifyRun 0 [(⟨some "eth0", 1, 1⟩, 11), (⟨some "eth0", 1, 1⟩, 0)]) := by
  have hrun : notifyRun 0 [(⟨some "eth0", 1, 1⟩, 11), (⟨some "eth0", 1, 1⟩, 0)] =
      [⟨11, some 11⟩, ⟨0, none⟩] := by
    simp [notifyRun, nettool_link_notify, ip_link_add_notification]
  rw [hrun]
  intro h
  obtain ⟨q, hq, h0⟩ := h.1 [⟨11, some 11⟩] ⟨0, none⟩ [] rfl rfl
  simp only [List.cons_append, List.nil_append, List.mem_cons, List.not_mem_nil, or_false] at hq
  rcases hq with rfl | rfl
  · simp at h0
  · simp at h0

end NetTool
