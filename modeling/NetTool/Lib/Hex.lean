import Mathlib.Algebra.Ring.Nat
import Mathlib.Data.List.Induction

/-!
# Hexadecimal digits

`digit` reads a digit of either case, and `upper` and `lower` write it; `value` reads a text of digits and
`four` writes the four digits of a 16-bit number, which stand for its bits from the highest on
(`testBit_nibble`).
-/

namespace Hex

/-- The value of a digit. -/
def digit (b : UInt8) : Option ℕ :=
  if 48 ≤ b.toNat ∧ b.toNat ≤ 57 then some (b.toNat - 48)
  else if 65 ≤ b.toNat ∧ b.toNat ≤ 70 then some (b.toNat - 55)
  else if 97 ≤ b.toNat ∧ b.toNat ≤ 102 then some (b.toNat - 87)
  else none

/-- The value of a text of digits. -/
def value (ds : List UInt8) : ℕ := ds.foldl (fun v d => 16 * v + (digit d).getD 0) 0

def upper (n : ℕ) : UInt8 := UInt8.ofNat (if n < 10 then 48 + n else 55 + n)

def lower (n : ℕ) : UInt8 := UInt8.ofNat (if n < 10 then 48 + n else 87 + n)

/-- The digit of `v` with this place value. -/
def nibble (v j : ℕ) : ℕ := v / 2 ^ (12 - 4 * j) % 16

def two (v : ℕ) : List UInt8 := [upper (v / 16), upper (v % 16)]

def four (v : ℕ) : List UInt8 := [0, 1, 2, 3].map fun j => upper (nibble v j)

theorem digit_lt {b : UInt8} {v : ℕ} (h : digit b = some v) : v < 16 := by
  unfold digit at h
  split_ifs at h <;> · rw [Option.some.injEq] at h; omega

theorem digit_upper {n : ℕ} (h : n < 16) : digit (upper n) = some n := by
  have hn : (upper n).toNat = if n < 10 then 48 + n else 55 + n := by
    unfold upper
    rw [UInt8.toNat_ofNat']
    split_ifs <;> omega
  unfold digit
  rw [hn]
  split_ifs <;> first | omega | exact congrArg some (by omega)

theorem digit_lower {n : ℕ} (h : n < 16) : digit (lower n) = some n := by
  have hn : (lower n).toNat = if n < 10 then 48 + n else 87 + n := by
    unfold lower
    rw [UInt8.toNat_ofNat']
    split_ifs <;> omega
  unfold digit
  rw [hn]
  split_ifs <;> first | omega | exact congrArg some (by omega)

theorem upper_ne_zero {n : ℕ} (h : n < 16) : upper n ≠ 0 := by
  intro h0
  have hd := digit_upper h
  rw [h0] at hd
  cases hd

theorem value_append (ds : List UInt8) (d : UInt8) :
    value (ds ++ [d]) = 16 * value ds + (digit d).getD 0 := by
  unfold value
  rw [List.foldl_append]
  rfl

theorem value_lt (ds : List UInt8) : value ds < 16 ^ ds.length := by
  induction ds using List.reverseRecOn with
  | nil => exact Nat.one_pos
  | append_singleton ds d ih =>
    have hd : (digit d).getD 0 < 16 := by
      rcases h : digit d with _ | v
      · exact Nat.succ_pos 15
      · exact digit_lt h
    rw [value_append, List.length_append, List.length_singleton, Nat.pow_succ]
    omega

theorem nibble_lt (v j : ℕ) : nibble v j < 16 := Nat.mod_lt _ (Nat.succ_pos 15)

@[simp] theorem length_four (v : ℕ) : (four v).length = 4 := rfl

theorem mem_four {v : ℕ} {d : UInt8} (h : d ∈ four v) : ∃ n < 16, d = upper n := by
  obtain ⟨j, -, rfl⟩ := List.mem_map.1 h
  exact ⟨nibble v j, nibble_lt v j, rfl⟩

theorem getElem?_four (v : ℕ) {j : ℕ} (h : j < 4) : (four v)[j]? = some (upper (nibble v j)) := by
  unfold four
  rw [List.getElem?_map]
  rcases j with _ | _ | _ | _ | j
  · rfl
  · rfl
  · rfl
  · rfl
  · omega

theorem four_eq {v : ℕ} (h : v < 65536) : four v = two (v / 256) ++ two (v % 256) := by
  have h0 : nibble v 0 = v / 256 / 16 := by
    unfold nibble
    omega
  have h1 : nibble v 1 = v / 256 % 16 := rfl
  have h2 : nibble v 2 = v % 256 / 16 := by
    unfold nibble
    omega
  have h3 : nibble v 3 = v % 256 % 16 := by
    unfold nibble
    omega
  simp only [four, two, List.map_cons, List.map_nil, h0, h1, h2, h3, List.cons_append,
    List.nil_append]

/-- The bits of the digits are those of the number. -/
theorem testBit_nibble (v : ℕ) {j r : ℕ} (hj : j < 4) (hr : r < 4) :
    (nibble v j).testBit (3 - r) = v.testBit (15 - (4 * j + r)) := by
  unfold nibble
  rw [show 16 = 2 ^ 4 from rfl, Nat.testBit_mod_two_pow, Nat.testBit_div_two_pow,
    decide_eq_true (by omega), Bool.true_and]
  congr 1
  omega

/-- The digits of a list of numbers, in their order. -/
theorem getElem?_flatMap_four : ∀ (vs : List ℕ) (i : ℕ) {j : ℕ}, j < 4 →
    (vs.flatMap four)[4 * i + j]? = vs[i]?.map fun v => upper (nibble v j)
  | [], i, j, _ => rfl
  | v :: vs, 0, j, h => by
    rw [List.flatMap_cons, Nat.mul_zero, Nat.zero_add,
      List.getElem?_append_left (by rw [length_four]; exact h), getElem?_four v h]
    rfl
  | v :: vs, i + 1, j, h => by
    have ih := getElem?_flatMap_four vs i h
    rw [List.flatMap_cons, List.getElem?_append_right (by rw [length_four]; omega), length_four,
      show 4 * (i + 1) + j - 4 = 4 * i + j by omega, ih]
    rfl

end Hex
