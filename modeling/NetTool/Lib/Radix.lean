import Mathlib.Algebra.Order.Ring.Int
import Mathlib.Tactic.Ring

/-!
# Numbers in two parts

An integer as a number of units and a digit below the base: seconds and nanoseconds, minutes and
seconds, the high and the low half of a word. Comparing the units first and the digits where they
are equal compares the integers (`value_lt_iff`, `compare_eq_sign`), and one carry or one borrow is
enough to add or to subtract them (`value_add`, `value_sub`).
-/

namespace Radix

structure Num (B : ℤ) where
  hi : ℤ
  lo : ℤ
  nonneg : 0 ≤ lo
  lt : lo < B

namespace Num

variable {B : ℤ}

def value (n : Num B) : ℤ := n.hi * B + n.lo

theorem base_pos (n : Num B) : 0 < B := lt_of_le_of_lt n.nonneg n.lt

/-! ## The order -/

theorem value_lt_of_hi {m n : Num B} (h : m.hi < n.hi) : m.value < n.value := by
  have hm := m.lt
  have hn := n.nonneg
  have hle : (m.hi + 1) * B ≤ n.hi * B :=
    Int.mul_le_mul_of_nonneg_right h (le_of_lt m.base_pos)
  rw [Int.add_mul, one_mul] at hle
  unfold value
  omega

theorem value_lt_iff {m n : Num B} :
    m.value < n.value ↔ m.hi < n.hi ∨ m.hi = n.hi ∧ m.lo < n.lo := by
  rcases lt_trichotomy m.hi n.hi with h | h | h
  · exact ⟨fun _ => .inl h, fun _ => value_lt_of_hi h⟩
  · unfold value
    rw [h]
    omega
  · have := value_lt_of_hi h
    omega

theorem value_le_iff {m n : Num B} :
    m.value ≤ n.value ↔ m.hi < n.hi ∨ m.hi = n.hi ∧ m.lo ≤ n.lo := by
  have h := @value_lt_iff B n m
  omega

/-- The units are what the number has of them. -/
theorem hi_lt_iff {n : Num B} {u : ℤ} : n.hi < u ↔ n.value < u * B := by
  have hu : value (⟨u, 0, le_rfl, n.base_pos⟩ : Num B) = u * B := Int.add_zero _
  have hn := n.nonneg
  rw [← hu, value_lt_iff]
  dsimp only
  omega

/-- The units first, then the digits. -/
def compare (m n : Num B) : ℤ :=
  if m.hi < n.hi then -1
  else if n.hi < m.hi then 1
  else if m.lo < n.lo then -1
  else if n.lo < m.lo then 1
  else 0

theorem compare_eq_sign (m n : Num B) : m.compare n = (m.value - n.value).sign := by
  have h1 := @value_lt_iff B m n
  have h2 := @value_lt_iff B n m
  rcases lt_trichotomy m.value n.value with h | h | h
  · rw [Int.sign_eq_neg_one_of_neg (by omega)]
    unfold compare
    omega
  · rw [h, Int.sub_self, Int.sign_zero]
    unfold compare
    omega
  · rw [Int.sign_eq_one_of_pos (by omega)]
    unfold compare
    omega

/-! ## Sums and differences -/

/-- Units and a sum of two digits, with the carry. -/
def carry (hi lo : ℤ) (h0 : 0 ≤ lo) (h : lo < 2 * B) : Num B :=
  if hlt : lo < B then ⟨hi, lo, h0, hlt⟩ else ⟨hi + 1, lo - B, by omega, by omega⟩

/-- Units and a difference of two digits, with the borrow. -/
def borrow (hi lo : ℤ) (h0 : -B ≤ lo) (h : lo < B) : Num B :=
  if hle : 0 ≤ lo then ⟨hi, lo, hle, h⟩ else ⟨hi - 1, lo + B, by omega, by omega⟩

variable {hi lo : ℤ}

theorem carry_of_lt (h0 : 0 ≤ lo) (h : lo < 2 * B) (hlt : lo < B) :
    carry hi lo h0 h = ⟨hi, lo, h0, hlt⟩ := dif_pos hlt

theorem carry_of_le (h0 : 0 ≤ lo) (h : lo < 2 * B) (hle : B ≤ lo) :
    carry hi lo h0 h = ⟨hi + 1, lo - B, by omega, by omega⟩ := dif_neg (by omega)

theorem borrow_of_nonneg (h0 : -B ≤ lo) (h : lo < B) (hle : 0 ≤ lo) :
    borrow hi lo h0 h = ⟨hi, lo, hle, h⟩ := dif_pos hle

theorem borrow_of_neg (h0 : -B ≤ lo) (h : lo < B) (hlt : lo < 0) :
    borrow hi lo h0 h = ⟨hi - 1, lo + B, by omega, by omega⟩ := dif_neg (by omega)

theorem value_carry (h0 : 0 ≤ lo) (h : lo < 2 * B) : (carry hi lo h0 h).value = hi * B + lo := by
  unfold carry value
  split_ifs with hlt
  · rfl
  · ring

theorem value_borrow (h0 : -B ≤ lo) (h : lo < B) : (borrow hi lo h0 h).value = hi * B + lo := by
  unfold borrow value
  split_ifs with hle
  · rfl
  · ring

def add (m n : Num B) : Num B :=
  carry (m.hi + n.hi) (m.lo + n.lo) (Int.add_nonneg m.nonneg n.nonneg)
    (by have := m.lt; have := n.lt; omega)

def sub (m n : Num B) : Num B :=
  borrow (m.hi - n.hi) (m.lo - n.lo) (by have := m.nonneg; have := n.lt; omega)
    (by have := m.lt; have := n.nonneg; omega)

theorem add_of_lt {m n : Num B} (h : m.lo + n.lo < B) : (m.add n).hi = m.hi + n.hi ∧
    (m.add n).lo = m.lo + n.lo := by
  rw [add, carry_of_lt _ _ h]
  exact ⟨rfl, rfl⟩

theorem add_of_le {m n : Num B} (h : B ≤ m.lo + n.lo) : (m.add n).hi = m.hi + n.hi + 1 ∧
    (m.add n).lo = m.lo + n.lo - B := by
  rw [add, carry_of_le _ _ h]
  exact ⟨rfl, rfl⟩

theorem sub_of_le {m n : Num B} (h : n.lo ≤ m.lo) : (m.sub n).hi = m.hi - n.hi ∧
    (m.sub n).lo = m.lo - n.lo := by
  rw [sub, borrow_of_nonneg _ _ (Int.sub_nonneg_of_le h)]
  exact ⟨rfl, rfl⟩

theorem sub_of_lt {m n : Num B} (h : m.lo < n.lo) : (m.sub n).hi = m.hi - n.hi - 1 ∧
    (m.sub n).lo = m.lo - n.lo + B := by
  rw [sub, borrow_of_neg _ _ (Int.sub_neg_of_lt h)]
  exact ⟨rfl, rfl⟩

theorem value_add (m n : Num B) : (m.add n).value = m.value + n.value := by
  rw [add, value_carry]
  unfold value
  ring

theorem value_sub (m n : Num B) : (m.sub n).value = m.value - n.value := by
  rw [sub, value_borrow]
  unfold value
  ring

/-- The difference, or zero where it is negative. -/
def monus (m n : Num B) : Num B :=
  if m.hi < n.hi ∨ m.hi = n.hi ∧ m.lo ≤ n.lo then ⟨0, 0, le_rfl, m.base_pos⟩ else m.sub n

theorem monus_of_le {m n : Num B} (h : m.hi < n.hi ∨ m.hi = n.hi ∧ m.lo ≤ n.lo) :
    (m.monus n).hi = 0 ∧ (m.monus n).lo = 0 := by
  rw [monus, if_pos h]
  exact ⟨rfl, rfl⟩

theorem monus_of_not_le {m n : Num B} (h : ¬ (m.hi < n.hi ∨ m.hi = n.hi ∧ m.lo ≤ n.lo)) :
    m.monus n = m.sub n := if_neg h

theorem value_monus (m n : Num B) : (m.monus n).value = max 0 (m.value - n.value) := by
  have h := @value_le_iff B m n
  unfold monus
  split_ifs with hle
  · have h0 : value (⟨0, 0, le_rfl, m.base_pos⟩ : Num B) = 0 := by
      rw [value, Int.zero_mul, Int.add_zero]
    rw [h0, max_eq_left]
    have := h.2 hle
    omega
  · rw [value_sub, max_eq_right]
    have := h.not.2 hle
    omega

end Num

end Radix
