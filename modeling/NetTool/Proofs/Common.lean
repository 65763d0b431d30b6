import Mathlib.Data.List.TakeWhile
import NetTool.Common
import NetTool.Proofs.Timespec

/-!
# Which lines fit

A line of `Printf` fits for all arguments (`Printf_isSome`). One of `PrintfLn` fits if the digits of
the thread and the message take no more than 76 bytes between them (`PrintfLn_isSome`). The texts
of a run of `WaitSignal_funcThread` take no more than 60, as its timeouts stay within two seconds
(`length_text_signal`), and the one about a signal of two digits takes as many.
-/

namespace NetTool

open Bytes CInt

/-! ## Lengths -/

/-- How many decimal digits a number has. -/
def digits (n : ℕ) : ℕ := (Nat.toDigits 10 n).length

theorem digits_le_iff {n k : ℕ} (hk : 0 < k) : digits n ≤ k ↔ n < 10 ^ k :=
  Nat.length_toDigits_le_iff (by omega) hk

theorem digits_pos (n : ℕ) : 0 < digits n := Nat.length_toDigits_pos

theorem length_decimalText (n : ℕ) (v : ℤ) :
    (decimalText n v).length = (if v < 0 then 1 else 0) + max n (digits v.natAbs) := by
  unfold decimalText digits
  simp only [List.length_append, List.length_replicate, List.length_map]
  split_ifs
  · rw [List.length_singleton]
    omega
  · rw [List.length_nil]
    omega

theorem length_decimalText_le {n k : ℕ} {v : ℤ} (hk : 0 < k) (h0 : 0 ≤ v) (hv : v < 10 ^ k) :
    (decimalText n v).length ≤ max n k := by
  obtain ⟨m, rfl⟩ := Int.eq_ofNat_of_zero_le h0
  have hd := (digits_le_iff hk).2 (by exact_mod_cast hv : m < 10 ^ k)
  rw [length_decimalText, if_neg (by omega), Int.natAbs_natCast]
  omega

/-- A 64-bit number takes no more than 20 bytes. -/
theorem length_decimalText_long {v : ℤ} (h : -2 ^ 63 ≤ v ∧ v < 2 ^ 64) :
    (decimalText 1 v).length ≤ 20 := by
  rw [length_decimalText]
  split_ifs with hneg
  · have hd := (digits_le_iff (n := v.natAbs) (k := 19) (by omega)).2 (by omega)
    omega
  · have hd := (digits_le_iff (n := v.natAbs) (k := 20) (by omega)).2 (by omega)
    omega

theorem ne_zero_of_mem_decimalText {n : ℕ} {v : ℤ} {b : UInt8} (h : b ∈ decimalText n v) : b ≠ 0 := by
  have hch : ∀ c : Char, c.isDigit → c.toUInt8 ≠ 0 := fun c hc hz => by
    have hz' := congrArg UInt8.toNat hz
    simp only [Char.isDigit, Bool.and_eq_true, decide_eq_true_eq, ge_iff_le, UInt32.le_iff_toNat_le]
      at hc
    rw [Char.toUInt8, UInt32.toNat_toUInt8] at hz'
    change c.val.toNat % 256 = 0 at hz'
    have h1 : '0'.val.toNat = 48 := rfl
    have h2 : '9'.val.toNat = 57 := rfl
    omega
  unfold decimalText at h
  dsimp only at h
  rw [List.mem_append, List.mem_append] at h
  rcases h with (h | h) | h
  · split_ifs at h
    · rw [List.mem_singleton.1 h]
      decide
    · cases h
  · rw [List.eq_of_mem_replicate h]
    decide
  · obtain ⟨c, hc, rfl⟩ := List.mem_map.1 h
    exact hch c (Nat.isDigit_of_mem_toDigits (by omega) (by omega) hc)

/-! ## `Printf` -/

/-- The fields of it are 64-bit numbers. -/
structure timespec.IsLong (t : timespec) : Prop where
  sec : -2 ^ 63 ≤ t.tv_sec ∧ t.tv_sec < 2 ^ 63
  nsec : -2 ^ 63 ≤ t.tv_nsec ∧ t.tv_nsec < 2 ^ 63

theorem Printf_isSome {t : timespec} (ht : t.IsLong) {pthread_self : ℕ} (hself : pthread_self < 2 ^ 64)
    (fmt : String) (args : List Arg) : (Printf t pthread_self fmt args).isSome := by
  have hsec := length_decimalText_long (v := t.tv_sec) ⟨ht.sec.1, by have := ht.sec.2; omega⟩
  have hnsec := length_decimalText_long (v := t.tv_nsec) ⟨ht.nsec.1, by have := ht.nsec.2; omega⟩
  have hid := length_decimalText_long (v := pthread_self) ⟨by omega, by omega⟩
  have htext : ∀ s : List UInt8, sprintf "%ld.%ld %lu %s\n" [.int t.tv_sec, .int t.tv_nsec,
      .int pthread_self, .bytes s] = decimalText 1 t.tv_sec ++ [ch '.'] ++ (decimalText 1 t.tv_nsec ++
        [ch ' '] ++ (decimalText 1 pthread_self ++ [ch ' '] ++
          (s.takeWhile (· ≠ 0) ++ [ch '\n'] ++ []))) := fun _ => rfl
  have hle := (List.takeWhile_prefix (p := (· ≠ (0 : UInt8))) (l := (sprintf fmt args).take 511)).length_le
  have h511 := List.length_take_le 511 (sprintf fmt args)
  unfold Printf
  dsimp only
  rw [htext, if_pos]
  · rfl
  · simp only [List.length_append, List.length_cons, List.length_nil]
    omega

/-! ## `PrintfLn` -/

/-- The clock shows a time whose seconds have no more than ten digits. -/
structure timespec.Short (t : timespec) : Prop where
  valid : t.Valid
  nonneg : 0 ≤ t.tv_sec
  lt : t.tv_sec < 10 ^ 10

section Lines

variable {t : timespec} (ht : t.Short) (pthread_self : ℕ)
include ht

theorem PrintfLn_isSome (a_Message : List UInt8) : (PrintfLn t pthread_self a_Message).isSome ↔
    digits pthread_self + (a_Message.takeWhile (· ≠ 0)).length ≤ 76 := by
  have htext : sprintf "%.10ld.%.9ld %lu %s\n" [.int t.tv_sec, .int t.tv_nsec, .int pthread_self,
      .bytes a_Message] = decimalText 10 t.tv_sec ++ [ch '.'] ++ (decimalText 9 t.tv_nsec ++
        [ch ' '] ++ (decimalText 1 pthread_self ++ [ch ' '] ++
          (a_Message.takeWhile (· ≠ 0) ++ [ch '\n'] ++ []))) := rfl
  have hsec : (decimalText 10 t.tv_sec).length = 10 := by
    have h1 := length_decimalText_le (n := 10) (k := 10) (by omega) ht.nonneg ht.lt
    rw [length_decimalText] at h1 ⊢
    omega
  have hnsec : (decimalText 9 t.tv_nsec).length = 9 := by
    have h1 := length_decimalText_le (n := 9) (k := 9) (by omega) ht.valid.1 ht.valid.2
    rw [length_decimalText] at h1 ⊢
    omega
  have hid : (decimalText 1 (pthread_self : ℤ)).length = digits pthread_self := by
    have hpos := digits_pos pthread_self
    rw [length_decimalText, if_neg (by omega), Int.natAbs_natCast]
    omega
  unfold PrintfLn
  dsimp only
  rw [htext]
  simp only [List.length_append, List.length_cons, List.length_nil, hsec, hnsec, hid]
  split_ifs
  · exact iff_of_true rfl (by omega)
  · exact iff_of_false Bool.false_ne_true (by omega)

end Lines

/-- The text a thread gives to `PrintfLn`. -/
def ThreadEv.text : ThreadEv → List UInt8
  | .PrintfLn fmt args => sprintf fmt args
  | _ => []

theorem ThreadEv.line_isSome {t : timespec} (ht : t.Short) {pthread_self n : ℕ} {e : ThreadEv}
    (he : e.text.length ≤ n) (hn : digits pthread_self + n ≤ 76) :
    (e.line t pthread_self).isSome := by
  cases e with
  | PrintfLn fmt args =>
    have hle := (List.takeWhile_prefix (p := (· ≠ (0 : UInt8))) (l := sprintf fmt args)).length_le
    rw [text] at he
    unfold line
    dsimp only
    rw [if_pos (by omega), PrintfLn_isSome ht]
    omega
  | _ => rfl

/-! ## The two threads -/

/-- All texts of `ConditionVariable_funcThread` are short. -/
theorem length_text_condition {nows : List timeval} {e : ThreadEv}
    (he : e ∈ ConditionVariable_funcThread nows) : e.text.length ≤ 24 := by
  unfold ConditionVariable_funcThread ConditionVariable_wait at he
  rcases List.mem_cons.1 he with rfl | he
  · decide
  · obtain ⟨now, -, he⟩ := List.mem_flatMap.1 he
    simp only [List.cons_append, List.nil_append, List.mem_cons, List.not_mem_nil, or_false] at he
    rcases he with rfl | rfl | rfl | rfl | rfl | rfl | rfl
    · decide
    · decide
    · decide
    · exact Nat.zero_le 24
    · decide
    · decide
    · decide

section Signal

variable {r : SignalRound} {rounds : List SignalRound} {g_Timeout : timespec}

/-- `sigtimedwait` fails or gives the number of a signal. -/
def SignalRound.Waited (r : SignalRound) : Prop := -1 ≤ r.vRetcode ∧ r.vRetcode < 100

theorem length_decimalText_two {v : ℤ} (h : -1 ≤ v ∧ v < 100) : (decimalText 1 v).length ≤ 2 := by
  by_cases h0 : 0 ≤ v
  · exact length_decimalText_le (n := 1) (k := 2) (by omega) h0 (by omega)
  · obtain rfl : v = -1 := by omega
    decide

theorem sprintf_wait (v : ℤ) (s : String) :
    sprintf "WaitSignal_Wait_2 : vretcode=%d %s" [.int v, .str s] =
      argBytes "WaitSignal_Wait_2 : vretcode=" ++ (decimalText 1 v ++ [ch ' '] ++
        ((argBytes s).takeWhile (· ≠ 0) ++ [] ++ [])) := rfl

theorem length_text_round (hto : TimeoutOf r (signal_timeout r)) (hw : r.Waited) {e : ThreadEv}
    (he : e ∈ .PrintfLn "funcThread_2" [] :: (WaitSignal_Wait r g_Timeout ++
      [.PrintfLn "funcThread_3" [], .PrintfLn "funcThread_4 diff_sec=%ld diff_ns=%ld"
        [.int (signal_timeout r).tv_sec, .int (signal_timeout r).tv_nsec],
        .PrintfLn "funcThread_4" []])) : e.text.length ≤ 60 := by
  have hle := hto.le
  have hnonneg := hto.nonneg
  obtain ⟨hv0, hv⟩ := hto.valid
  unfold timespec.ns at hle hnonneg
  unfold WaitSignal_Wait at he
  simp only [List.cons_append, List.nil_append, List.mem_cons, List.not_mem_nil, or_false] at he
  rcases he with rfl | rfl | rfl | rfl | rfl | rfl
  · decide
  · exact Nat.zero_le 60
  · have hn := length_decimalText_two hw
    have hlen : ∀ s, ((argBytes s).takeWhile (· ≠ 0)).length ≤ 28 → (ThreadEv.text (.PrintfLn
        "WaitSignal_Wait_2 : vretcode=%d %s" [.int r.vRetcode, .str s])).length ≤ 60 := fun s hs => by
      rw [ThreadEv.text, sprintf_wait, List.length_append,
        show (argBytes "WaitSignal_Wait_2 : vretcode=").length = 29 from rfl]
      simp only [List.length_append, List.length_cons, List.length_nil]
      omega
    split_ifs
    all_goals exact hlen _ (by decide)
  · decide
  · have htext : ∀ a b, ThreadEv.text (.PrintfLn "funcThread_4 diff_sec=%ld diff_ns=%ld"
        [.int a, .int b]) = argBytes "funcThread_4 diff_sec=" ++ (decimalText 1 a ++
          argBytes " diff_ns=" ++ (decimalText 1 b ++ [] ++ [])) := fun _ _ => rfl
    have hsec : (decimalText 1 (signal_timeout r).tv_sec).length ≤ max 1 1 :=
      length_decimalText_le (by omega) (by omega) (by omega)
    have hnsec : (decimalText 1 (signal_timeout r).tv_nsec).length ≤ max 1 9 :=
      length_decimalText_le (by omega) (by omega) (by omega)
    rw [htext, List.length_append, show (argBytes "funcThread_4 diff_sec=").length = 22 from rfl]
    simp only [List.length_append, List.length_nil, show (argBytes " diff_ns=").length = 9 from rfl]
    omega
  · decide

/-- No text of a run is longer than 60 bytes. -/
theorem length_text_rounds (hto : ∀ r ∈ rounds, TimeoutOf r (signal_timeout r) ∧ r.Waited)
    {e : ThreadEv} (he : e ∈ (signal_rounds g_Timeout rounds).2) : e.text.length ≤ 60 := by
  induction rounds generalizing g_Timeout with
  | nil => cases he
  | cons r rs ih =>
    obtain ⟨hr, hw⟩ := hto r List.mem_cons_self
    have hsplit : (signal_rounds g_Timeout (r :: rs)).2 = (.PrintfLn "funcThread_2" [] ::
        (WaitSignal_Wait r g_Timeout ++ [.PrintfLn "funcThread_3" [],
          .PrintfLn "funcThread_4 diff_sec=%ld diff_ns=%ld"
            [.int (signal_timeout r).tv_sec, .int (signal_timeout r).tv_nsec],
          .PrintfLn "funcThread_4" []])) ++ (signal_rounds (signal_timeout r) rs).2 := by
      rw [signal_rounds]
      simp
    rw [hsplit] at he
    rcases List.mem_append.1 he with he | he
    · exact length_text_round hr hw he
    · exact ih (fun r' hr' => hto r' (List.mem_cons_of_mem r hr')) he

theorem length_text_signal (hclock : Clock rounds) (hw : ∀ r ∈ rounds, r.Waited) {SIG_STOP : ℤ}
    (hsig : 0 ≤ SIG_STOP ∧ SIG_STOP < 100) {e : ThreadEv}
    (he : e ∈ (WaitSignal_funcThread SIG_STOP g_Timeout rounds).2) : e.text.length ≤ 60 := by
  unfold WaitSignal_funcThread at he
  rcases List.mem_cons.1 he with rfl | he
  · have htext : ThreadEv.text (.PrintfLn "WaitSignal_Config : Blocking signal %d" [.int SIG_STOP]) =
        argBytes "WaitSignal_Config : Blocking signal " ++ (decimalText 1 SIG_STOP ++ [] ++ []) := rfl
    have hn := length_decimalText_two (v := SIG_STOP) (by omega)
    rw [htext, List.length_append,
      show (argBytes "WaitSignal_Config : Blocking signal ").length = 36 from rfl]
    simp only [List.length_append, List.length_nil]
    omega
  · rcases List.mem_cons.1 he with rfl | he
    · decide
    · refine length_text_rounds (fun r hr => ?_) he
      obtain ⟨h1, h2, h3⟩ := hclock.round hr
      exact ⟨timeoutOf_round h1 h2 h3, hw r hr⟩

theorem signal_mem {rounds : List SignalRound} {g_Timeout : timespec} (hr : r ∈ rounds)
    (h0 : 0 < r.vRetcode) : .PrintfLn "WaitSignal_Wait_2 : vretcode=%d %s"
      [.int r.vRetcode, .str "***********************   OK"] ∈ (signal_rounds g_Timeout rounds).2 := by
  induction rounds generalizing g_Timeout with
  | nil => cases hr
  | cons r' rs ih =>
    rw [signal_rounds]
    refine List.mem_cons_of_mem _ ?_
    rcases List.mem_cons.1 hr with rfl | hr
    · exact List.mem_append_left _ (by simp [WaitSignal_Wait, h0])
    · exact List.mem_append_right _ (ih hr)

/-- The text about a signal of two digits has 60 bytes and no zero. -/
theorem length_text_caught {v : ℤ} (h : 10 ≤ v ∧ v < 100) :
    ((sprintf "WaitSignal_Wait_2 : vretcode=%d %s" [.int v, .str "***********************   OK"]).takeWhile
      (· ≠ 0)).length = 60 := by
  have hn : (decimalText 1 v).length = 2 := by
    have h2 := (digits_le_iff (n := v.natAbs) (k := 2) (by omega)).2 (by omega)
    have h1 := mt (digits_le_iff (n := v.natAbs) (k := 1) (by omega)).1 (by omega)
    rw [length_decimalText, if_neg (by omega)]
    omega
  have hne : ∀ b ∈ sprintf "WaitSignal_Wait_2 : vretcode=%d %s"
      [.int v, .str "***********************   OK"], decide (b ≠ 0) = true := by
    have hfront : (argBytes "WaitSignal_Wait_2 : vretcode=").all (· ≠ 0) = true := rfl
    have hback : ([ch ' '] ++ ((argBytes "***********************   OK").takeWhile
      (· ≠ 0) ++ [] ++ [])).all (· ≠ 0) = true := rfl
    intro b hb
    rw [sprintf_wait] at hb
    rcases List.mem_append.1 hb with hb | hb
    · exact List.all_eq_true.1 hfront b hb
    · rw [List.append_assoc, List.mem_append] at hb
      rcases hb with hb | hb
      · exact decide_eq_true (ne_zero_of_mem_decimalText hb)
      · exact List.all_eq_true.1 hback b hb
  rw [List.takeWhile_eq_self_iff.2 hne, sprintf_wait, List.length_append, List.append_assoc,
    List.length_append, hn]
  rfl

end Signal

/-- No line of `Printf` overruns its buffers. Where the clock shows no more than ten digits of
seconds, no line of a run of `ConditionVariable_funcThread` overruns that of `PrintfLn`. None of a
run of `WaitSignal_funcThread` does for a thread of no more than 16 digits, and only for these once
it caught a signal of two digits. -/
theorem lines_fit {t : timespec} (ht : t.Short) {pthread_self : ℕ} (hself : pthread_self < 2 ^ 64) :
    (∀ t' : timespec, t'.IsLong → ∀ fmt args, (Printf t' pthread_self fmt args).isSome) ∧
      (∀ nows, ∀ e ∈ ConditionVariable_funcThread nows, (e.line t pthread_self).isSome) ∧
      ∀ (rounds : List SignalRound) (SIG_STOP : ℤ) (g_Timeout : timespec), Clock rounds →
        (∀ r ∈ rounds, r.Waited) → (0 ≤ SIG_STOP ∧ SIG_STOP < 100) →
        (pthread_self < 10 ^ 16 →
          ∀ e ∈ (WaitSignal_funcThread SIG_STOP g_Timeout rounds).2, (e.line t pthread_self).isSome) ∧
        ((∃ r ∈ rounds, 10 ≤ r.vRetcode) →
          (∀ e ∈ (WaitSignal_funcThread SIG_STOP g_Timeout rounds).2, (e.line t pthread_self).isSome) →
            pthread_self < 10 ^ 16) := by
  have hdigits := (digits_le_iff (n := pthread_self) (k := 20) (by omega)).2 (by omega)
  refine ⟨fun t' ht' fmt args => Printf_isSome ht' hself fmt args,
    fun nows e he => ThreadEv.line_isSome ht (length_text_condition he) (by omega),
    fun rounds SIG_STOP g_Timeout hclock hw hsig => ⟨fun h16 e he => ?_, fun ⟨r, hr, h10⟩ hall => ?_⟩⟩
  · have hd := (digits_le_iff (n := pthread_self) (k := 16) (by omega)).2 h16
    exact ThreadEv.line_isSome ht (length_text_signal hclock hw hsig he) (by omega)
  · have hlt := (hw r hr).2
    have hline := hall _ (List.mem_cons_of_mem _ (List.mem_cons_of_mem _ (signal_mem hr (by omega))))
    have hlen := length_text_caught ⟨h10, hlt⟩
    rw [ThreadEv.line] at hline
    split_ifs at hline
    · rw [PrintfLn_isSome ht, hlen] at hline
      exact (digits_le_iff (by omega)).1 (by omega)
    · cases hline

/-- A round in which the signal comes. -/
def caughtRound : SignalRound := ⟨⟨10, 0⟩, 35, 0, ⟨11, 0⟩, ⟨11, 5⟩⟩

theorem caught_fits : 5 < 2 ^ 64 ∧ (5 < 10 ^ 16 →
    ∀ e ∈ (WaitSignal_funcThread 35 ⟨0, 0⟩ [caughtRound]).2, (e.line ⟨11, 7⟩ 5).isSome) := by
  have hclock : Clock [caughtRound] := by
    refine ⟨fun t ht => ?_, by unfold timespec.ns; decide⟩
    simp only [readings, List.flatMap_cons, List.flatMap_nil, List.append_nil, List.mem_cons,
      List.not_mem_nil, or_false] at ht
    rcases ht with rfl | rfl | rfl
    all_goals exact ⟨by decide, by simp [caughtRound], by simp [caughtRound]⟩
  have hw : ∀ r ∈ [caughtRound], r.Waited := List.forall_mem_singleton.2 ⟨by decide, by decide⟩
  exact ⟨by decide, ((lines_fit ⟨by decide, by decide, by decide⟩ (by decide)).2.2 [caughtRound] 35
    ⟨0, 0⟩ hclock hw (by decide)).1⟩

end NetTool
