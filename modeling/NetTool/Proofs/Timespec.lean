import NetTool.Lib.Radix
import NetTool.Timespec

/-!
# What the times come to

A valid `struct timespec` is a number of seconds and a digit to the base `10 ^ 9`. `ts_Add`,
`ts_Subtract` and `ts_Compare` are the operations on such numbers (`ts_Add_eq`, `ts_Subtract_eq`,
`ts_Compare_eq`), so they are exact in nanoseconds, and so are the timeouts that
`WaitSignal_funcThread` computes with them (`timeoutOf_round`). The deadline of
`ConditionVariable_wait` is such a number too, except where its nanoseconds are a full second,
which it does not carry (`absTimeToWait_eq`).
-/

namespace NetTool

open CInt Radix

namespace timespec

def ns (t : timespec) : ℤ := t.tv_sec * 1000000000 + t.tv_nsec

def Valid (t : timespec) : Prop := 0 ≤ t.tv_nsec ∧ t.tv_nsec < 1000000000

instance (t : timespec) : Decidable t.Valid := inferInstanceAs (Decidable (_ ∧ _))

/-- A valid time that is not negative and that a `time_t` holds. -/
structure IsTime (t : timespec) : Prop where
  valid : t.Valid
  nonneg : 0 ≤ t.tv_sec
  lt : t.tv_sec < 2 ^ 63

def num (t : timespec) (h : t.Valid) : Num 1000000000 := ⟨t.tv_sec, t.tv_nsec, h.1, h.2⟩

def ofNum (n : Num 1000000000) : timespec := ⟨n.hi, n.lo⟩

variable {t : timespec}

theorem valid_ofNum (n : Num 1000000000) : (ofNum n).Valid := ⟨n.nonneg, n.lt⟩

theorem ns_ofNum (n : Num 1000000000) : (ofNum n).ns = n.value := rfl

@[simp] theorem num_hi (h : t.Valid) : (t.num h).hi = t.tv_sec := rfl

@[simp] theorem num_lo (h : t.Valid) : (t.num h).lo = t.tv_nsec := rfl

theorem value_num (h : t.Valid) : (t.num h).value = t.ns := rfl

end timespec

open timespec

section Util

variable {a b : timespec}

theorem ts_Add_eq (ha : a.IsTime) (hb : b.IsTime) (hs : a.ns + b.ns < 2 ^ 63 * 1000000000) :
    ts_Add a b = ofNum ((a.num ha.valid).add (b.num hb.valid)) := by
  have hhi : ((a.num ha.valid).add (b.num hb.valid)).hi < 2 ^ 63 := by
    rw [Num.hi_lt_iff, Num.value_add]
    exact hs
  obtain ⟨ha1, ha2⟩ := ha.valid
  obtain ⟨hb1, hb2⟩ := hb.valid
  have ha3 := ha.nonneg
  have hb3 := hb.nonneg
  have hsec : a.tv_sec + b.tv_sec < 2 ^ 63 := by
    unfold ns at hs
    omega
  unfold ts_Add ofNum
  dsimp only
  rw [i64_of_mem (by omega) hsec, i64_of_mem (by omega) (by omega)]
  split_ifs with hc
  · obtain ⟨h1, h2⟩ := @Num.add_of_le _ (a.num ha.valid) (b.num hb.valid) hc
    simp only [num_hi, num_lo] at h1 h2
    rw [h1] at hhi
    rw [h1, h2, i64_of_mem (by omega) hhi, i64_of_mem (by omega) (by omega)]
  · obtain ⟨h1, h2⟩ := @Num.add_of_lt _ (a.num ha.valid) (b.num hb.valid) (not_le.1 hc)
    rw [h1, h2, num_hi, num_hi, num_lo, num_lo]

theorem ts_Subtract_eq (ha : a.IsTime) (hb : b.IsTime) :
    ts_Subtract a b = ofNum ((a.num ha.valid).monus (b.num hb.valid)) := by
  obtain ⟨ha1, ha2⟩ := ha.valid
  obtain ⟨hb1, hb2⟩ := hb.valid
  have ha3 := ha.nonneg
  have hb3 := hb.nonneg
  have ha4 := ha.lt
  have hb4 := hb.lt
  unfold ts_Subtract ofNum
  split_ifs with hle hlt
  · obtain ⟨h1, h2⟩ := @Num.monus_of_le _ (a.num ha.valid) (b.num hb.valid) hle
    rw [h1, h2]
  · obtain ⟨h1, h2⟩ := @Num.sub_of_lt _ (a.num ha.valid) (b.num hb.valid) hlt
    dsimp only
    rw [Num.monus_of_not_le hle, h1, h2, num_hi, num_hi, num_lo, num_lo,
      i64_of_mem (x := a.tv_sec - b.tv_sec) (by omega) (by omega),
      i64_of_mem (by omega) (by omega), i64_of_mem (x := a.tv_nsec + 1000000000) (by omega)
      (by omega), i64_of_mem (by omega) (by omega), add_sub_right_comm]
  · obtain ⟨h1, h2⟩ := @Num.sub_of_le _ (a.num ha.valid) (b.num hb.valid) (not_lt.1 hlt)
    dsimp only
    rw [Num.monus_of_not_le hle, h1, h2, num_hi, num_hi, num_lo, num_lo,
      i64_of_mem (by omega) (by omega), i64_of_mem (by omega) (by omega)]

theorem ts_Compare_eq (ha : a.Valid) (hb : b.Valid) :
    ts_Compare a b = (a.num ha).compare (b.num hb) := rfl

theorem isTime_ofNum {n : Num 1000000000} (h0 : 0 ≤ n.value)
    (h : n.value < 2 ^ 63 * 1000000000) : (ofNum n).IsTime := by
  have hlt : n.hi < 2 ^ 63 := Num.hi_lt_iff.2 h
  have hge : ¬ n.hi < 0 := by
    rw [Num.hi_lt_iff]
    omega
  exact ⟨valid_ofNum n, not_lt.1 hge, hlt⟩

theorem timespec.IsTime.ns_mem (ha : a.IsTime) : 0 ≤ a.ns ∧ a.ns < 2 ^ 63 * 1000000000 := by
  obtain ⟨h1, h2⟩ := ha.valid
  have h3 := ha.nonneg
  have h4 := ha.lt
  unfold ns
  omega

theorem ns_ts_Subtract (ha : a.IsTime) (hb : b.IsTime) :
    (ts_Subtract a b).ns = max 0 (a.ns - b.ns) := by
  rw [ts_Subtract_eq ha hb, ns_ofNum, Num.value_monus, value_num, value_num]

theorem isTime_ts_Subtract (ha : a.IsTime) (hb : b.IsTime) : (ts_Subtract a b).IsTime := by
  have h1 := ha.ns_mem
  have h2 := hb.ns_mem
  have h := ns_ts_Subtract ha hb
  rw [ts_Subtract_eq ha hb] at h ⊢
  rw [ns_ofNum] at h
  exact isTime_ofNum (by omega) (by omega)

theorem ts_Compare_sign (ha : a.Valid) (hb : b.Valid) :
    ts_Compare a b = (a.ns - b.ns).sign := by
  rw [ts_Compare_eq ha hb, Num.compare_eq_sign, value_num, value_num]

theorem ts_IsLessThan_eq (ha : a.Valid) (hb : b.Valid) :
    ts_IsLessThan a b = if a.ns < b.ns then 1 else 0 := by
  rw [ts_IsLessThan, ts_Compare_sign ha hb]
  refine if_congr ?_ rfl rfl
  rw [Int.sign_eq_neg_one_iff_neg]
  omega

theorem ts_IsEqual_eq (ha : a.Valid) (hb : b.Valid) :
    ts_IsEqual a b = if a.ns = b.ns then 1 else 0 := by
  rw [ts_IsEqual, ts_Compare_sign ha hb]
  refine if_congr ?_ rfl rfl
  rw [Int.sign_eq_zero_iff_zero]
  omega

theorem ts_IsGreaterThan_eq (ha : a.Valid) (hb : b.Valid) :
    ts_IsGreaterThan a b = if b.ns < a.ns then 1 else 0 := by
  rw [ts_IsGreaterThan, ts_Compare_sign ha hb]
  refine if_congr ?_ rfl rfl
  rw [Int.sign_eq_one_iff_pos]
  omega

end Util

/-! ## The deadline of `ConditionVariable_wait` -/

def timeval.ns (now : timeval) : ℤ := now.tv_sec * 1000000000 + now.tv_usec * 1000

/-- What `gettimeofday` can show. -/
structure timeval.IsReading (now : timeval) : Prop where
  nonneg : 0 ≤ now.tv_usec
  lt : now.tv_usec < 1000000
  sec : -2 ^ 63 ≤ now.tv_sec

section Deadline

variable {now : timeval} {timeoutMs : ℤ}

/-- The deadline given to `pthread_cond_timedwait` is a valid time, `timeoutMs` milliseconds
behind `now`. -/
def DeadlineRight (now : timeval) (timeoutMs : ℤ) : Prop :=
  ∀ t, .pthread_cond_timedwait t ∈ ConditionVariable_wait now timeoutMs →
    t.Valid ∧ t.ns = now.ns + timeoutMs * 1000000

theorem mem_ConditionVariable_wait {t : timespec} :
    .pthread_cond_timedwait t ∈ ConditionVariable_wait now timeoutMs ↔
      t = absTimeToWait now timeoutMs := by
  simp [ConditionVariable_wait]

theorem deadlineRight_iff : DeadlineRight now timeoutMs ↔
    (absTimeToWait now timeoutMs).Valid ∧
      (absTimeToWait now timeoutMs).ns = now.ns + timeoutMs * 1000000 := by
  unfold DeadlineRight
  simp only [mem_ConditionVariable_wait, forall_eq]

/-- The deadline as seconds and nanoseconds, with the carry where there is one. -/
def deadline (hn : now.IsReading) (timeoutMs : ℤ) : Num 1000000000 :=
  Num.carry (now.tv_sec + timeoutMs / 1000) (now.tv_usec * 1000 + 1000000 * (timeoutMs % 1000))
    (by have := hn.nonneg; omega) (by have := hn.lt; omega)

theorem value_deadline (hn : now.IsReading) (timeoutMs : ℤ) :
    (deadline hn timeoutMs).value = now.ns + timeoutMs * 1000000 := by
  rw [deadline, Num.value_carry]
  unfold timeval.ns
  omega

/-- The nanoseconds are a full second, which is not carried, or the deadline is as it should be. -/
theorem absTimeToWait_eq (hn : now.IsReading) (h0 : 0 ≤ timeoutMs)
    (hs : now.ns + timeoutMs * 1000000 < 2 ^ 63 * 1000000000) : absTimeToWait now timeoutMs =
      if now.tv_usec + 1000 * (timeoutMs % 1000) = 1000000 then
        ⟨now.tv_sec + timeoutMs / 1000, 1000000000⟩
      else ofNum (deadline hn timeoutMs) := by
  have h1 := hn.nonneg
  have h2 := hn.lt
  have h3 := hn.sec
  have hhi : (deadline hn timeoutMs).hi < 2 ^ 63 := by
    rw [Num.hi_lt_iff, value_deadline]
    exact hs
  have hsec : now.tv_sec + timeoutMs / 1000 < 2 ^ 63 := by
    unfold timeval.ns at hs
    omega
  unfold absTimeToWait
  dsimp only
  rw [Int.tdiv_eq_ediv_of_nonneg h0, Int.tmod_eq_emod_of_nonneg h0,
    i64_of_mem (x := now.tv_sec + timeoutMs / 1000) (by omega) hsec,
    i64_of_mem (x := now.tv_usec * 1000) (by omega) (by omega),
    i64_of_mem (x := 1000000 * (timeoutMs % 1000)) (by omega) (by omega),
    i64_of_mem (x := now.tv_usec * 1000 + 1000000 * (timeoutMs % 1000)) (by omega) (by omega)]
  rw [deadline] at hhi ⊢
  split_ifs with hc he he
  · omega
  · rw [Num.carry_of_le _ _ (le_of_lt hc)] at hhi ⊢
    dsimp only at hhi
    rw [i64_of_mem (by omega) hhi, i64_of_mem (by omega) (by omega)]
    rfl
  · congr 1
    omega
  · rw [Num.carry_of_lt _ _ (by omega)]
    rfl

/-- The deadline is right unless the microseconds and the milliseconds make a full second. -/
theorem deadline_right_iff (hn : now.IsReading) (h0 : 0 ≤ timeoutMs)
    (hs : now.ns + timeoutMs * 1000000 < 2 ^ 63 * 1000000000) :
    DeadlineRight now timeoutMs ↔ now.tv_usec + 1000 * (timeoutMs % 1000) ≠ 1000000 := by
  rw [deadlineRight_iff, absTimeToWait_eq hn h0 hs]
  split_ifs with he
  · refine iff_of_false (fun h => ?_) (not_not.2 he)
    exact absurd h.1.2 (lt_irrefl _)
  · exact iff_of_true ⟨valid_ofNum _, value_deadline hn timeoutMs⟩ he

theorem halfSecond_right : DeadlineRight ⟨1, 499999⟩ 2500 :=
  (deadline_right_iff ⟨by simp, by simp, by simp⟩ (by simp) (by simp [timeval.ns])).2 (by simp)

/-- Half a second, half a second past the full one. -/
theorem halfSecond_not_right : ¬ DeadlineRight ⟨1, 500000⟩ 500 := by
  rw [deadlineRight_iff]
  decide

/-- The thread itself waits for full seconds, where the deadline is right. -/
theorem ConditionVariable_funcThread_right {nows : List timeval}
    (hn : ∀ now ∈ nows, now.IsReading ∧ now.ns + 20000000000 < 2 ^ 63 * 1000000000)
    {t : timespec} (ht : .pthread_cond_timedwait t ∈ ConditionVariable_funcThread nows) :
    ∃ now ∈ nows, t.Valid ∧ t.ns = now.ns + 20000000000 := by
  simp only [ConditionVariable_funcThread, List.mem_cons, reduceCtorEq, List.mem_flatMap,
    List.mem_append, mem_ConditionVariable_wait, false_or, List.not_mem_nil, or_false] at ht
  obtain ⟨now, hnow, rfl⟩ := ht
  obtain ⟨hread, hs⟩ := hn now hnow
  have hlt := hread.lt
  refine ⟨now, hnow, ?_⟩
  rw [absTimeToWait_eq hread (by simp) hs, if_neg (by omega)]
  exact ⟨valid_ofNum _, value_deadline hread _⟩

end Deadline

/-! ## The timeouts of `WaitSignal_funcThread` -/

section Signal

/-- What the clock shows over a run, in order. -/
def readings (rounds : List SignalRound) : List timespec :=
  rounds.flatMap fun r => [r.vDateNow, r.g_DateStart, r.vDateAfter]

/-- The clock shows times and does not go back. -/
structure Clock (rounds : List SignalRound) : Prop where
  times : ∀ t ∈ readings rounds, t.IsTime
  mono : (readings rounds).Pairwise fun a b => a.ns ≤ b.ns

variable {a b : timespec} {r : SignalRound} {rounds : List SignalRound}

/-- The timeout a round should compute. -/
structure TimeoutOf (r : SignalRound) (t : timespec) : Prop where
  valid : t.Valid
  nonneg : 0 ≤ t.ns
  le : t.ns ≤ 2 * 1000000000
  eq : t.ns = max 0 (2 * 1000000000 - (r.vDateAfter.ns - r.g_DateStart.ns))

theorem Clock.round (h : Clock rounds) (hr : r ∈ rounds) :
    r.g_DateStart.IsTime ∧ r.vDateAfter.IsTime ∧ r.g_DateStart.ns ≤ r.vDateAfter.ns := by
  have hmem : ∀ t ∈ [r.vDateNow, r.g_DateStart, r.vDateAfter], t.IsTime := fun t ht =>
    h.times t (List.mem_flatMap.2 ⟨r, hr, ht⟩)
  have hp := (List.pairwise_flatMap.1 h.mono).1 r hr
  simp only [List.pairwise_cons, List.mem_cons] at hp
  exact ⟨hmem _ (by simp), hmem _ (by simp), hp.2.1 _ (.inl rfl)⟩

theorem timeoutOf_round (hs : r.g_DateStart.IsTime) (ha : r.vDateAfter.IsTime)
    (hle : r.g_DateStart.ns ≤ r.vDateAfter.ns) : TimeoutOf r (signal_timeout r) := by
  have h2 : timespec.IsTime ⟨2, 0⟩ := ⟨by decide, by simp, by simp⟩
  have hd := isTime_ts_Subtract ha hs
  have hns : (signal_timeout r).ns =
      max 0 (2 * 1000000000 - (r.vDateAfter.ns - r.g_DateStart.ns)) := by
    unfold signal_timeout
    dsimp only
    rw [ns_ts_Subtract h2 hd, ns_ts_Subtract ha hs, max_eq_right (Int.sub_nonneg_of_le hle)]
    rfl
  exact ⟨(isTime_ts_Subtract h2 hd).valid, by omega, by omega, hns⟩

theorem signal_rounds_timeouts : ∀ (rounds : List SignalRound) (g_Timeout : timespec),
    (signal_rounds g_Timeout rounds).1 = rounds.map signal_timeout
  | [], _ => rfl
  | r :: rs, g_Timeout => by
    rw [signal_rounds, List.map_cons, signal_rounds_timeouts rs]

/-- Each wait is given the timeout of the round before. -/
theorem sigtimedwait_mem {t : timespec} : ∀ {rounds : List SignalRound} {g_Timeout : timespec},
    .sigtimedwait t ∈ (signal_rounds g_Timeout rounds).2 →
      t = g_Timeout ∨ t ∈ (signal_rounds g_Timeout rounds).1
  | [], _, h => by cases h
  | r :: rs, g_Timeout, h => by
    simp only [signal_rounds, WaitSignal_Wait, List.mem_cons, List.mem_append, reduceCtorEq,
      ThreadEv.sigtimedwait.injEq, List.not_mem_nil, or_false, false_or] at h
    rw [signal_rounds, List.mem_cons]
    rcases h with h | h
    · exact .inl h
    · exact .inr (sigtimedwait_mem h)

/-- The thread never waits longer than two seconds. -/
theorem sigtimedwait_le {t : timespec} (hr : Clock rounds) {SIG_STOP : ℤ}
    (h : .sigtimedwait t ∈ (WaitSignal_funcThread SIG_STOP ⟨0, 0⟩ rounds).2) :
    t.Valid ∧ 0 ≤ t.ns ∧ t.ns ≤ 2 * 1000000000 := by
  simp only [WaitSignal_funcThread, List.mem_cons, reduceCtorEq, false_or] at h
  rcases sigtimedwait_mem h with rfl | ht
  · decide
  · rw [signal_rounds_timeouts] at ht
    obtain ⟨r, hmem, rfl⟩ := List.mem_map.1 ht
    obtain ⟨h1, h2, h3⟩ := hr.round hmem
    have hto := timeoutOf_round h1 h2 h3
    exact ⟨hto.valid, hto.nonneg, hto.le⟩

end Signal

/-- `ts_Add`, `ts_Subtract` and `ts_Compare` are exact, exactly one of the three relations holds,
and the timeouts `WaitSignal_funcThread` computes are what is left of two seconds. -/
theorem times_exact {a b : timespec} (ha : a.IsTime) (hb : b.IsTime)
    (hs : a.ns + b.ns < 2 ^ 63 * 1000000000) {rounds : List SignalRound} (hr : Clock rounds)
    (SIG_STOP : ℤ) (g_Timeout : timespec) :
    ((ts_Add a b).Valid ∧ (ts_Add a b).ns = a.ns + b.ns) ∧
    ((ts_Subtract a b).Valid ∧ (ts_Subtract a b).ns = max 0 (a.ns - b.ns)) ∧
    ts_Compare a b = (a.ns - b.ns).sign ∧
    (ts_IsLessThan a b = if a.ns < b.ns then 1 else 0) ∧
    (ts_IsEqual a b = if a.ns = b.ns then 1 else 0) ∧
    (ts_IsGreaterThan a b = if b.ns < a.ns then 1 else 0) ∧
    ts_IsLessThan a b + ts_IsEqual a b + ts_IsGreaterThan a b = 1 ∧
    List.Forall₂ TimeoutOf rounds (WaitSignal_funcThread SIG_STOP g_Timeout rounds).1 := by
  have hlt := ts_IsLessThan_eq ha.valid hb.valid
  have heq := ts_IsEqual_eq ha.valid hb.valid
  have hgt := ts_IsGreaterThan_eq ha.valid hb.valid
  refine ⟨?_, ⟨(isTime_ts_Subtract ha hb).valid, ns_ts_Subtract ha hb⟩,
    ts_Compare_sign ha.valid hb.valid, hlt, heq, hgt, ?_, ?_⟩
  · rw [ts_Add_eq ha hb hs]
    exact ⟨valid_ofNum _, Num.value_add _ _⟩
  · rw [hlt, heq, hgt]
    omega
  · rw [WaitSignal_funcThread, signal_rounds_timeouts, List.forall₂_map_right_iff,
      List.forall₂_same]
    intro r hmem
    obtain ⟨h1, h2, h3⟩ := hr.round hmem
    exact timeoutOf_round h1 h2 h3

/-- A run of two rounds whose processing takes half a second and three seconds. -/
def twoRounds : List SignalRound :=
  [⟨⟨10, 0⟩, -1, 11, ⟨12, 0⟩, ⟨12, 500000000⟩⟩, ⟨⟨12, 600000000⟩, 35, 0, ⟨13, 0⟩, ⟨16, 1⟩⟩]

theorem twoRounds_exact :
    ((ts_Add ⟨1, 999999999⟩ ⟨0, 1⟩).Valid ∧ (ts_Add ⟨1, 999999999⟩ ⟨0, 1⟩).ns = 2000000000) ∧
      List.Forall₂ TimeoutOf twoRounds (WaitSignal_funcThread 35 ⟨0, 0⟩ twoRounds).1 := by
  have ha : timespec.IsTime ⟨1, 999999999⟩ := ⟨by decide, by simp, by simp⟩
  have hb : timespec.IsTime ⟨0, 1⟩ := ⟨by decide, by simp, by simp⟩
  have hr : Clock twoRounds := by
    refine ⟨fun t ht => ?_, by unfold ns; decide⟩
    simp only [readings, twoRounds, List.flatMap_cons, List.flatMap_nil, List.mem_append,
      List.mem_cons, List.not_mem_nil, or_false] at ht
    rcases ht with (rfl | rfl | rfl) | rfl | rfl | rfl
    all_goals exact ⟨by decide, by simp, by simp⟩
  have h := times_exact ha hb (by simp [ns]) hr 35 ⟨0, 0⟩
  exact ⟨h.1, h.2.2.2.2.2.2.2⟩

end NetTool
