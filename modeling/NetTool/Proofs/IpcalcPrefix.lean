import NetTool.IpcalcMain
import NetTool.Proofs.Ipcalc
import Mathlib.Data.List.TakeWhile

/-!
# Texts of prefixes

A prefix may be a number or a mask. A number printed in decimal is read back
(`safe_atoi_toString`), and a mask stands for the number of its ones where they stand together.
-/

namespace NetTool

open Bytes CInt Block in_addr

/-- The byte is a decimal digit. -/
def IsDecimal (b : UInt8) : Prop := 48 ≤ b.toNat ∧ b.toNat ≤ 57

instance (b : UInt8) : Decidable (IsDecimal b) := inferInstanceAs (Decidable (_ ∧ _))

theorem IsDecimal.digit {b : UInt8} (h : IsDecimal b) : Hex.digit b = some (b.toNat - 48) := if_pos h

theorem IsDecimal.not_isspace {b : UInt8} (h : IsDecimal b) : isspace b = false := by
  unfold isspace
  rw [Bool.or_eq_false_iff, decide_eq_false_iff_not, Bool.and_eq_false_iff,
    decide_eq_false_iff_not, decide_eq_false_iff_not]
  refine ⟨?_, .inr fun hle => ?_⟩
  · rintro rfl
    exact absurd h.1 (by decide)
  · have := UInt8.le_iff_toNat_le.1 hle
    exact absurd (h.1.trans this) (by decide)

theorem IsDecimal.ne {b : UInt8} (h : IsDecimal b) {x : Char} (hx : ¬ IsDecimal (ch x)) :
    b ≠ ch x := fun he => hx (he ▸ h)

/-- Decimal digits of which the first is no zero are read in base 10. -/
theorem numberItem_decimal {ds : List UInt8} (hds : ∀ d ∈ ds, IsDecimal d)
    (hhead : ds.head? ≠ some (ch '0')) : numberItem ds = (false, 10, ds, []) := by
  have hsign : ∀ x, ¬ IsDecimal (ch x) → ds.head? ≠ some (ch x) := fun x hx he =>
    hx (hds _ (List.mem_of_head? he))
  have hdigit : ∀ d ∈ ds, ((Hex.digit d).any (· < 10) : Bool) = true := by
    intro d hd
    have h9 := (hds d hd).2
    rw [(hds d hd).digit, Option.any_some, decide_eq_true_iff]
    omega
  have hspace : ds.dropWhile isspace = ds := by
    cases ds with
    | nil => rfl
    | cons d ds =>
      rw [List.dropWhile_cons_of_neg]
      rw [(hds d List.mem_cons_self).not_isspace]
      exact Bool.false_ne_true
  have hminus := hsign '-' (by decide)
  have hplus := hsign '+' (by decide)
  rw [List.head?_eq_getElem?] at hminus hplus hhead
  have htake : ds.takeWhile (fun b => (Hex.digit b).any (· < 10)) = ds :=
    List.takeWhile_eq_self_iff.2 hdigit
  have hdrop : ds.dropWhile (fun b => (Hex.digit b).any (· < 10)) = [] :=
    List.dropWhile_eq_nil_iff.2 hdigit
  unfold numberItem
  simp only [hspace, List.head?_eq_getElem?, hminus, hplus, hhead, or_self, false_and, if_false,
    decide_false, htake, hdrop]

theorem isDigit_toUInt8 {c : Char} (h : c.isDigit) :
    IsDecimal c.toUInt8 ∧ c.toUInt8.toNat = c.toNat ∧ c.toNat < 128 := by
  unfold Char.isDigit at h
  rw [Bool.and_eq_true, decide_eq_true_iff, decide_eq_true_iff] at h
  have hlo := UInt32.le_iff_toNat_le.1 h.1
  have hhi := UInt32.le_iff_toNat_le.1 h.2
  have hle : c.toNat ≤ 57 := hhi
  have hge : 48 ≤ c.toNat := hlo
  have hc : c.toUInt8.toNat = c.toNat := by
    rw [Char.toUInt8, UInt32.toNat_toUInt8]
    exact Nat.mod_eq_of_lt (by change c.toNat < 256; omega)
  exact ⟨⟨by omega, by omega⟩, hc, by omega⟩

theorem foldl_decimal (cs : List Char) (h : ∀ c ∈ cs, c.isDigit) (v : ℕ) :
    (cs.map Char.toUInt8).foldl (fun v d => 10 * v + (Hex.digit d).getD 0) v =
      Nat.ofDigitChars 10 cs v := by
  induction cs generalizing v with
  | nil => rfl
  | cons c cs ih =>
    obtain ⟨hdec, hc, -⟩ := isDigit_toUInt8 (h c List.mem_cons_self)
    rw [List.map_cons, List.foldl_cons, ih fun d hd => h d (List.mem_cons_of_mem c hd),
      Nat.ofDigitChars_cons, hdec.digit, Option.getD_some, hc]
    rfl

theorem head_toDigits {n : ℕ} (h : 0 < n) : (Nat.toDigits 10 n).head? ≠ some '0' := by
  induction n using Nat.strong_induction_on with
  | _ n ih =>
    rw [Nat.toDigits_eq_if (by omega)]
    split_ifs with h10
    · have hsmall : ∀ n < 10, 0 < n → [n.digitChar].head? ≠ some '0' := by decide
      exact hsmall n h10 h
    · rw [List.head?_append_of_ne_nil _ Nat.toDigits_ne_nil]
      exact ih (n / 10) (by omega) (by omega)

/-- A number printed in decimal is read back. -/
theorem safe_atoi_toString {n : ℕ} (h : n < 2 ^ 31) : safe_atoi (argBytes (toString n)) = .ok n := by
  rcases Nat.eq_zero_or_pos n with rfl | hpos
  · decide
  have hdigit : ∀ c ∈ Nat.toDigits 10 n, c.isDigit := fun c hc =>
    Nat.isDigit_of_mem_toDigits (by omega) (by omega) hc
  have hbytes : argBytes (toString n) = (Nat.toDigits 10 n).map Char.toUInt8 := by
    rw [Nat.toString_eq_ofList_toDigits]
    exact argBytes_ofList fun c hc => (isDigit_toUInt8 (hdigit c hc)).2.2
  have hhead : ((Nat.toDigits 10 n).map Char.toUInt8).head? ≠ some (ch '0') := by
    rw [List.head?_map]
    intro he
    obtain ⟨c, hc, hzero⟩ := Option.map_eq_some_iff.1 he
    have hnat := (isDigit_toUInt8 (hdigit c (List.mem_of_head? hc))).2.1
    rw [hzero] at hnat
    obtain rfl : c = '0' := Char.toNat_inj.1 hnat.symm
    exact head_toDigits hpos hc
  have hds : ∀ d ∈ (Nat.toDigits 10 n).map Char.toUInt8, IsDecimal d := by
    intro d hd
    obtain ⟨c, hc, rfl⟩ := List.mem_map.1 hd
    exact (isDigit_toUInt8 (hdigit c hc)).1
  have hvalue : strtol_base0 ((Nat.toDigits 10 n).map Char.toUInt8) = n := by
    rw [strtol_base0, numberItem_decimal hds hhead]
    dsimp only
    rw [foldl_decimal _ hdigit, Nat.ofDigitChars_ten_toDigits]
    rfl
  rw [hbytes, safe_atoi, numberItem_decimal hds hhead]
  dsimp only
  rw [hvalue, if_neg (by omega), if_neg, if_neg]
  · exact not_not.2 (i32_of_mem (by omega) (by omega))
  · rw [not_or, not_not]
    exact ⟨fun he => Nat.toDigits_ne_nil (List.map_eq_nil_iff.1 he), rfl⟩

theorem isDigit_toString {n : ℕ} {x : Char} (h : x ∈ (toString n).toList) : x.isDigit := by
  rw [Nat.toString_eq_ofList_toDigits, String.toList_ofList] at h
  exact Nat.isDigit_of_mem_toDigits (by omega) (by omega) h

theorem dot_not_mem_toString (n : ℕ) : '.' ∉ (toString n).toList :=
  fun h => absurd (isDigit_toString h) (by decide)

theorem colon_not_mem_toString (n : ℕ) : ':' ∉ (toString n).toList :=
  fun h => absurd (isDigit_toString h) (by decide)

/-- The longest prefix of a family. -/
def longest (ipv6 : Bool) : ℕ := if ipv6 then 128 else 32

theorem str_to_prefix_of_le {c : Libc} {ipv6 ipv6' fix : Bool} {text : String} {n : ℕ}
    (hbits : (if !ipv6 && '.' ∈ text.toList then some (ipv4_mask_to_int c text)
      else (safe_atoi (argBytes text)).toOption) = some (n : ℤ))
    (hfix : (ipv6 || (fix && decide (32 < (n : ℤ)))) = ipv6') (h : n ≤ longest ipv6') :
    str_to_prefix c ipv6 text fix = ((n : ℤ), ipv6') := by
  unfold str_to_prefix
  rw [hbits]
  dsimp only
  rw [hfix, if_neg]
  cases ipv6' with
  | true =>
    have h128 : n ≤ 128 := h
    simp only [not_true_eq_false, true_and, false_and, or_false]
    omega
  | false =>
    have h32 : n ≤ 32 := h
    simp only [Bool.false_eq_true, not_false_eq_true, true_and, false_and, false_or]
    omega

theorem fix_of_le {ipv6 : Bool} {n : ℕ} (h : n ≤ longest ipv6) (fix : Bool) :
    (ipv6 || (fix && decide (32 < (n : ℤ)))) = ipv6 := by
  cases ipv6 with
  | true => rfl
  | false =>
    have h32 : n ≤ 32 := h
    rw [decide_eq_false (by omega), Bool.and_false, Bool.or_false]

theorem bits_toString (c : Libc) (ipv6 : Bool) {n : ℕ} (h : n ≤ 128) :
    (if !ipv6 && '.' ∈ (toString n).toList then some (ipv4_mask_to_int c (toString n))
      else (safe_atoi (argBytes (toString n))).toOption) = some (n : ℤ) := by
  rw [decide_eq_false (dot_not_mem_toString n), Bool.and_false, if_neg Bool.false_ne_true,
    safe_atoi_toString (by omega)]
  rfl

theorem longest_le (ipv6 : Bool) : longest ipv6 ≤ 128 := by cases ipv6 <;> decide

/-- A number is the prefix it says. -/
theorem str_to_prefix_toString (c : Libc) (ipv6 fix : Bool) {n : ℕ} (h : n ≤ longest ipv6) :
    str_to_prefix c ipv6 (toString n) fix = ((n : ℤ), ipv6) :=
  str_to_prefix_of_le (bits_toString c ipv6 (h.trans (longest_le ipv6))) (fix_of_le h fix) h

/-- A number too large for IPv4 makes the prefix one of IPv6 where it may. -/
theorem str_to_prefix_fix (c : Libc) {n : ℕ} (h : n ≤ longest (decide (32 < n))) :
    str_to_prefix c false (toString n) true = ((n : ℤ), decide (32 < n)) := by
  refine str_to_prefix_of_le (bits_toString c false (h.trans (longest_le _))) ?_ h
  rw [Bool.false_or, Bool.true_and]
  exact decide_eq_decide.2 (by omega)

/-- A mask is the prefix that counts its ones, or none where they do not stand together. -/
theorem str_to_prefix_mask {c : Libc} {text : String} {v : Vector UInt8 4} (fix : Bool)
    (hv : c.pton4 text = some v) (hdot : '.' ∈ text.toList) :
    (∀ n : ℕ, str_to_prefix c false text fix = ((n : ℤ), false) ↔ Ones n (value v.toList)) ∧
      ((¬ ∃ n, Ones n (value v.toList)) → str_to_prefix c false text fix = (-1, false)) := by
  have hint : ipv4_mask_to_int c text = mask2prefix (load v) := by rw [ipv4_mask_to_int, hv]
  have hbits : (if !false && '.' ∈ text.toList then some (ipv4_mask_to_int c text)
      else (safe_atoi (argBytes text)).toOption) = (some <| mask2prefix (load v)) := by
    rw [decide_eq_true hdot, hint]
    rfl
  rw [← host_load]
  have hsome : ∀ n : ℕ, Ones n (load v).host → str_to_prefix c false text fix = ((n : ℤ), false) := by
    intro n hn
    have hle : n ≤ longest false := hn.le (load v).host_lt
    exact str_to_prefix_of_le (hbits.trans (congrArg some (mask2prefix_eq_iff.2 hn)))
      (fix_of_le hle fix) hle
  have hnone : (¬ ∃ n, Ones n (load v).host) → str_to_prefix c false text fix = (-1, false) := by
    intro hno
    unfold str_to_prefix
    rw [hbits, show mask2prefix (load v) = -1 from bit_count_eq_neg_one_iff.2 hno]
    cases fix <;> rfl
  refine ⟨fun n => ⟨fun h => ?_, hsome n⟩, hnone⟩
  by_cases hones : ∃ m, Ones m (load v).host
  · obtain ⟨m, hm⟩ := hones
    rw [hsome m hm, Prod.mk.injEq, Int.natCast_inj] at h
    exact h.1 ▸ hm
  · rw [hnone hones, Prod.mk.injEq] at h
    omega

/-- A prefix is read from its number, in either family, and from each mask whose ones stand
together; from no other mask. -/
theorem prefix_texts (c : Libc) (fix : Bool) :
    (∀ (ipv6 : Bool) (n : ℕ), n ≤ longest ipv6 →
      str_to_prefix c ipv6 (toString n) fix = ((n : ℤ), ipv6)) ∧
    ∀ (text : String) (v : Vector UInt8 4), c.pton4 text = some v → '.' ∈ text.toList →
      (∀ n : ℕ, str_to_prefix c false text fix = ((n : ℤ), false) ↔ Ones n (value v.toList)) ∧
        ((¬ ∃ n, Ones n (value v.toList)) → str_to_prefix c false text fix = (-1, false)) :=
  ⟨fun ipv6 _ h => str_to_prefix_toString c ipv6 fix h,
    fun _ _ hv hdot => str_to_prefix_mask fix hv hdot⟩

end NetTool
