import Mathlib.Data.Nat.Bitwise
import Mathlib.Data.Set.Card
import Mathlib.Order.CompletePartialOrder
import Mathlib.Order.Interval.Finset.Nat
import Mathlib.Order.Interval.Set.Basic
import Mathlib.Tactic.Ring

/-!
# Aligned blocks

The numbers that agree in all their binary digits but the last `k` are a block of `2 ^ k`
numbers, from `first k a` to `last k a` (`mem_block_iff`, `ncard_block`). Two blocks are nested or
have nothing in common (`nested_or_disjoint`).

A word's block is found with a mask of leading ones, in one machine word (`toNat_and_mask`,
`toNat_or_not_mask`) or byte by byte in a text of bytes, the highest first (`value_and_mask`,
`value_or_not_mask`).
-/

namespace Block

def first (k a : ℕ) : ℕ := a / 2 ^ k * 2 ^ k

def last (k a : ℕ) : ℕ := first k a + (2 ^ k - 1)

/-- The numbers in the block of `a`. -/
def block (k a : ℕ) : Set ℕ := {b | b / 2 ^ k = a / 2 ^ k}

variable {j k a b v w p : ℕ}

/-! ## Blocks -/

theorem mem_block_self : a ∈ block k a := rfl

theorem mem_block_iff : b ∈ block k a ↔ first k a ≤ b ∧ b ≤ last k a := by
  have hpos : 0 < 2 ^ k := Nat.two_pow_pos k
  have hlt := Nat.lt_div_mul_add hpos (a := b)
  have hle := Nat.div_mul_le_self b (2 ^ k)
  unfold block last first
  rw [Set.mem_ofPred_eq]
  constructor
  · intro h
    rw [← h]
    omega
  · rintro ⟨h1, h2⟩
    refine Nat.le_antisymm ?_ ((Nat.le_div_iff_mul_le hpos).2 h1)
    rw [← Nat.lt_succ_iff, Nat.div_lt_iff_lt_mul hpos, Nat.succ_mul]
    omega

theorem block_eq_Icc : block k a = Set.Icc (first k a) (last k a) :=
  Set.ext fun _ => mem_block_iff

theorem first_le : first k a ≤ a := Nat.div_mul_le_self a _

theorem first_mem : first k a ∈ block k a := mem_block_iff.2 ⟨le_rfl, Nat.le_add_right _ _⟩

theorem last_mem : last k a ∈ block k a := mem_block_iff.2 ⟨Nat.le_add_right _ _, le_rfl⟩

theorem block_congr (h : b ∈ block k a) : block k b = block k a := by
  unfold block at h ⊢
  rw [Set.mem_ofPred_eq] at h
  rw [h]

theorem ncard_block (k a : ℕ) : (block k a).ncard = 2 ^ k := by
  have hpos : 0 < 2 ^ k := Nat.two_pow_pos k
  rw [block_eq_Icc, ← Finset.coe_Icc, Set.ncard_coe_finset, Nat.card_Icc, last]
  omega

theorem block_subset (h : j ≤ k) : block j a ⊆ block k a := by
  intro b hb
  have hpow : 2 ^ k = 2 ^ j * 2 ^ (k - j) := by rw [← pow_add, Nat.add_sub_cancel' h]
  unfold block at hb ⊢
  rw [Set.mem_ofPred_eq] at hb ⊢
  rw [hpow, ← Nat.div_div_eq_div_mul, ← Nat.div_div_eq_div_mul, hb]

theorem nested_or_disjoint (h : j ≤ k) (a b : ℕ) :
    block j a ⊆ block k b ∨ Disjoint (block j a) (block k b) := by
  by_cases hc : ∃ c, c ∈ block j a ∧ c ∈ block k b
  · obtain ⟨c, ha, hb⟩ := hc
    refine .inl ?_
    rw [← block_congr hb, ← block_congr ha]
    exact block_subset h
  · exact .inr (Set.disjoint_left.2 fun c ha hb => hc ⟨c, ha, hb⟩)

theorem first_lt (ha : a < 2 ^ w) : first k a < 2 ^ w := lt_of_le_of_lt first_le ha

theorem last_lt (ha : a < 2 ^ w) (hk : k ≤ w) : last k a < 2 ^ w := by
  have hsub : block k a ⊆ block w a := block_subset hk
  have hlast : last k a / 2 ^ w = a / 2 ^ w := hsub last_mem
  rw [Nat.div_eq_of_lt ha] at hlast
  exact (Nat.div_eq_zero_iff_lt (Nat.two_pow_pos w)).1 hlast

theorem first_zero : first 0 a = a := by simp [first]

theorem last_zero : last 0 a = a := by simp [last, first_zero]

/-- A number above the block's bits stays. -/
theorem first_add_mul (hk : k ≤ w) (b v : ℕ) : first k (b * 2 ^ w + v) = b * 2 ^ w + first k v := by
  have hpow : 2 ^ w = 2 ^ (w - k) * 2 ^ k := by rw [← pow_add, Nat.sub_add_cancel hk]
  unfold first
  rw [hpow, ← mul_assoc, Nat.add_comm, Nat.add_mul_div_right _ _ (Nat.two_pow_pos k), Nat.add_mul,
    Nat.add_comm]

theorem last_add_mul (hk : k ≤ w) (b v : ℕ) : last k (b * 2 ^ w + v) = b * 2 ^ w + last k v := by
  rw [last, first_add_mul hk, last, Nat.add_assoc]

/-- A number below the block's bits does not matter. -/
theorem first_mul_add (hv : v < 2 ^ w) (b : ℕ) :
    first (w + k) (b * 2 ^ w + v) = first k b * 2 ^ w := by
  have hdiv : (b * 2 ^ w + v) / 2 ^ w = b := by
    rw [Nat.add_comm, Nat.add_mul_div_right _ _ (Nat.two_pow_pos w), Nat.div_eq_of_lt hv,
      Nat.zero_add]
  unfold first
  rw [pow_add, ← Nat.div_div_eq_div_mul, hdiv, Nat.mul_assoc, Nat.mul_comm (2 ^ w)]

theorem last_mul_add (hv : v < 2 ^ w) (b : ℕ) :
    last (w + k) (b * 2 ^ w + v) = last k b * 2 ^ w + (2 ^ w - 1) := by
  have hw := Nat.two_pow_pos w
  have hk := Nat.two_pow_pos k
  have hmul : (2 ^ k - 1) * 2 ^ w + 2 ^ w = 2 ^ (w + k) := by
    rw [← Nat.succ_mul, Nat.succ_eq_add_one, Nat.sub_add_cancel hk, pow_add, Nat.mul_comm]
  rw [last, first_mul_add hv, last, Nat.add_mul]
  omega

theorem first_of_lt (ha : a < 2 ^ k) : first k a = 0 := by
  rw [first, Nat.div_eq_of_lt ha, Nat.zero_mul]

theorem last_of_lt (ha : a < 2 ^ k) : last k a = 2 ^ k - 1 := by
  rw [last, first_of_lt ha, Nat.zero_add]

theorem block_diff_ends :
    block k a \ {first k a, last k a} = Set.Icc (first k a + 1) (last k a - 1) := by
  ext b
  rw [Set.mem_sdiff, mem_block_iff, Set.mem_insert_iff, Set.mem_singleton_iff, Set.mem_Icc]
  omega

/-! ## Digits to the base `2 ^ w` -/

def digit (w j v : ℕ) : ℕ := v / 2 ^ (w * j) % 2 ^ w

theorem digit_lt : digit w j v < 2 ^ w := Nat.mod_lt _ (Nat.two_pow_pos w)

theorem div_eq_add_digit (w j v : ℕ) :
    v / 2 ^ (w * j) = v / 2 ^ (w * (j + 1)) * 2 ^ w + digit w j v := by
  rw [digit, Nat.mul_succ, pow_add, ← Nat.div_div_eq_div_mul]
  exact (Nat.div_add_mod' _ _).symm

theorem div_eq_succ_iff {u : ℕ} : u / 2 ^ (w * j) = v / 2 ^ (w * j) ↔
    u / 2 ^ (w * (j + 1)) = v / 2 ^ (w * (j + 1)) ∧ digit w j u = digit w j v := by
  refine ⟨fun h => ⟨?_, by rw [digit, h, digit]⟩, fun ⟨hhigh, hlow⟩ => ?_⟩
  · rw [Nat.mul_succ, pow_add, ← Nat.div_div_eq_div_mul, h, Nat.div_div_eq_div_mul]
  · rw [div_eq_add_digit, hhigh, hlow, ← div_eq_add_digit]

theorem digit_mod {m : ℕ} (h : j < m) (v : ℕ) : digit w j (v % 2 ^ (w * m)) = digit w j v := by
  have hpow : 2 ^ (w * m) = 2 ^ (w * j) * 2 ^ w * 2 ^ (w * (m - (j + 1))) := by
    rw [← pow_add, ← pow_add, ← Nat.mul_succ, ← Nat.mul_add, Nat.succ_eq_add_one,
      Nat.add_sub_cancel' h]
  rw [digit, hpow, Nat.mul_assoc, Nat.mod_mul_right_div_self, Nat.mod_mul_right_mod, digit]

/-- Two numbers of `m` digits are in one block of `j` digits where the digits above are the
same. -/
theorem mem_block_iff_digits {m u : ℕ} (hj : j ≤ m) (hu : u < 2 ^ (w * m))
    (hv : v < 2 ^ (w * m)) :
    u ∈ block (w * j) v ↔ ∀ i < m, j ≤ i → digit w i u = digit w i v := by
  induction hj using Nat.decreasingInduction with
  | self =>
    refine iff_of_true ?_ fun i hi hle => absurd hi (Nat.not_lt.2 hle)
    rw [block, Set.mem_ofPred_eq, Nat.div_eq_of_lt hu, Nat.div_eq_of_lt hv]
  | of_succ j hj ih =>
    rw [block, Set.mem_ofPred_eq] at ih ⊢
    rw [div_eq_succ_iff, ih]
    refine ⟨fun ⟨hhigh, hlow⟩ i hi hle => ?_, fun h =>
      ⟨fun i hi hle => h i hi (Nat.le_of_succ_le hle), h j hj le_rfl⟩⟩
    rcases Nat.eq_or_lt_of_le hle with rfl | hlt
    · exact hlow
    · exact hhigh i hi hlt

variable {s : ℕ}

/-- Of a block that ends within a digit that digit is in a range, and those above are given. -/
theorem mem_block_iff_range (hs : s ≤ w) : b ∈ block (w * j + s) a ↔
    b / 2 ^ (w * (j + 1)) = a / 2 ^ (w * (j + 1)) ∧
      first s (digit w j a) ≤ digit w j b ∧ digit w j b ≤ last s (digit w j a) := by
  have hblock : b ∈ block (w * j + s) a ↔ b / 2 ^ (w * j) ∈ block s (a / 2 ^ (w * j)) := by
    rw [block, block, Set.mem_ofPred_eq, Set.mem_ofPred_eq, pow_add, Nat.div_div_eq_div_mul,
      Nat.div_div_eq_div_mul]
  have hb : digit w j b < 2 ^ w := digit_lt
  have hlast : last s (digit w j a) < 2 ^ w := last_lt digit_lt hs
  have hfirst : first s (digit w j a) < 2 ^ w := first_lt digit_lt
  rw [hblock, mem_block_iff, div_eq_add_digit w j a, div_eq_add_digit w j b, first_add_mul hs,
    last_add_mul hs]
  generalize b / 2 ^ (w * (j + 1)) = x, a / 2 ^ (w * (j + 1)) = y
  rcases Nat.lt_trichotomy x y with h | rfl | h
  · have hmul := Nat.mul_le_mul_right (2 ^ w) (Nat.succ_le_of_lt h)
    rw [Nat.succ_mul] at hmul
    omega
  · omega
  · have hmul := Nat.mul_le_mul_right (2 ^ w) (Nat.succ_le_of_lt h)
    rw [Nat.succ_mul] at hmul
    omega

theorem digit_first (hs : s ≤ w) (a : ℕ) :
    digit w j (first (w * j + s) a) = first s (digit w j a) := by
  have hpos := Nat.two_pow_pos (w * j)
  rw [← Nat.div_add_mod' a (2 ^ (w * j)), first_mul_add (Nat.mod_lt _ hpos), digit,
    Nat.mul_div_cancel _ hpos, Nat.div_add_mod', div_eq_add_digit, first_add_mul hs,
    Nat.add_comm, Nat.add_mul_mod_self_right, Nat.mod_eq_of_lt (first_lt digit_lt)]

theorem digit_last (hs : s ≤ w) (a : ℕ) :
    digit w j (last (w * j + s) a) = last s (digit w j a) := by
  have hpos := Nat.two_pow_pos (w * j)
  have hlt : 2 ^ (w * j) - 1 < 2 ^ (w * j) := Nat.sub_lt hpos Nat.one_pos
  rw [← Nat.div_add_mod' a (2 ^ (w * j)), last_mul_add (Nat.mod_lt _ hpos), digit,
    Nat.add_comm, Nat.add_mul_div_right _ _ hpos, Nat.div_eq_of_lt hlt, Nat.zero_add,
    Nat.div_add_mod', div_eq_add_digit, last_add_mul hs, Nat.add_comm,
    Nat.add_mul_mod_self_right, Nat.mod_eq_of_lt (last_lt digit_lt hs)]

/-! ## Masks of a word -/

/-- The `w`-bit word of `p` leading ones. -/
def mask (w p : ℕ) : BitVec w := BitVec.allOnes w <<< (w - p)

theorem and_mask (a : BitVec w) : a &&& mask w p = a >>> (w - p) <<< (w - p) := by
  ext i hi
  simp only [mask, BitVec.getElem_and, BitVec.getElem_shiftLeft, BitVec.getElem_allOnes,
    BitVec.getElem_ushiftRight]
  by_cases h : i < w - p
  · simp [h]
  · simp [h, show w - p + (i - (w - p)) = i by omega, BitVec.getLsbD_eq_getElem hi]

theorem toNat_and_mask (a : BitVec w) : (a &&& mask w p).toNat = first (w - p) a.toNat := by
  rw [and_mask, BitVec.toNat_shiftLeft, BitVec.toNat_ushiftRight, Nat.shiftRight_eq_div_pow,
    Nat.shiftLeft_eq]
  exact Nat.mod_eq_of_lt (first_lt a.isLt)

theorem toNat_not_mask : (~~~mask w p).toNat = 2 ^ (w - p) - 1 := by
  refine Nat.eq_of_testBit_eq fun i => ?_
  rw [BitVec.testBit_toNat, Nat.testBit_two_pow_sub_one, mask, BitVec.getLsbD_not,
    BitVec.getLsbD_shiftLeft, BitVec.getLsbD_allOnes]
  by_cases hi : i < w
  · by_cases h : i < w - p <;> simp [hi, h]
    omega
  · simp [hi, show ¬ i < w - p by omega]

theorem toNat_mask : (mask w p).toNat = 2 ^ w - 2 ^ (w - p) := by
  have h := @toNat_not_mask w p
  have hlt := (mask w p).isLt
  have hpos := Nat.two_pow_pos (w - p)
  rw [BitVec.toNat_not] at h
  omega

/-- The highest `p` of `w` digits of a number. -/
theorem and_high {x : ℕ} (hx : x < 2 ^ w) : x &&& (2 ^ w - 2 ^ (w - p)) = first (w - p) x := by
  have h := toNat_and_mask (p := p) (BitVec.ofNat w x)
  rwa [BitVec.toNat_and, toNat_mask, BitVec.toNat_ofNat, Nat.mod_eq_of_lt hx] at h

theorem toNat_or_not_mask (a : BitVec w) :
    (a &&& mask w p ||| ~~~mask w p).toNat = last (w - p) a.toNat := by
  have hlt : 2 ^ (w - p) - 1 < 2 ^ (w - p) := Nat.sub_lt (Nat.two_pow_pos _) Nat.one_pos
  rw [BitVec.toNat_or, toNat_and_mask, toNat_not_mask, last, first, Nat.mul_comm]
  exact (Nat.two_pow_add_eq_or_of_lt hlt _).symm

/-! ## Runs of ones -/

/-- In binary, `c` ones and then zeros. -/
def Ones (c i : ℕ) : Prop := ∃ k, i = (2 ^ c - 1) * 2 ^ k

theorem ones_zero : Ones 0 0 := ⟨0, rfl⟩

theorem ones_eq_zero {c : ℕ} : Ones c 0 ↔ c = 0 := by
  refine ⟨?_, fun h => h ▸ ones_zero⟩
  rintro ⟨k, hk⟩
  rcases Nat.mul_eq_zero.1 hk.symm with h | h
  · rcases c with _ | c
    · rfl
    · have hpos := Nat.two_pow_pos c
      rw [pow_succ] at h
      omega
  · exact absurd h (Nat.ne_of_gt (Nat.two_pow_pos k))

theorem ones_two_mul {c : ℕ} : Ones c (2 * a) ↔ Ones c a := by
  constructor
  · rintro ⟨_ | k, hk⟩
    · rcases c with _ | c
      · exact ⟨0, by omega⟩
      · have hpos := Nat.two_pow_pos c
        rw [pow_succ] at hk
        omega
    · rw [pow_succ, ← Nat.mul_assoc] at hk
      exact ⟨k, by omega⟩
  · rintro ⟨k, rfl⟩
    exact ⟨k + 1, by rw [pow_succ, Nat.mul_comm 2, Nat.mul_assoc]⟩

/-- An odd number is a run where the rest of it is a run up to its last digit. -/
theorem ones_two_mul_add_one {c : ℕ} : Ones c (2 * a + 1) ↔ 0 < c ∧ a = 2 ^ (c - 1) - 1 := by
  constructor
  · rintro ⟨_ | k, hk⟩
    · rcases c with _ | c
      · omega
      · rw [pow_succ] at hk
        exact ⟨Nat.succ_pos c, by rw [Nat.add_sub_cancel]; omega⟩
    · rw [pow_succ, ← Nat.mul_assoc] at hk
      omega
  · rintro ⟨hc, rfl⟩
    obtain ⟨c, rfl⟩ := Nat.exists_eq_add_one_of_ne_zero (Nat.ne_of_gt hc)
    have hpos := Nat.two_pow_pos c
    refine ⟨0, ?_⟩
    rw [Nat.add_sub_cancel, pow_succ]
    omega

/-- A netmask is a run. -/
theorem ones_netmask {c : ℕ} (hc : c ≤ w) : Ones c (2 ^ w - 2 ^ (w - c)) := by
  refine ⟨w - c, ?_⟩
  rw [Nat.sub_mul, Nat.one_mul, ← pow_add, Nat.add_sub_cancel' hc]

theorem Ones.le {c i : ℕ} (h : Ones c i) (hi : i < 2 ^ w) : c ≤ w := by
  obtain ⟨k, rfl⟩ := h
  by_contra hlt
  have hpow : 2 ^ (w + 1) ≤ 2 ^ c := Nat.pow_le_pow_right Nat.two_pos (by omega)
  have hmul := Nat.le_mul_of_pos_right (2 ^ c - 1) (Nat.two_pow_pos k)
  have hpos := Nat.two_pow_pos w
  rw [pow_succ] at hpow
  omega

/-! ## Masks of a text of bytes -/

/-- The number with these digits to the base 256, the highest first. -/
def value : List UInt8 → ℕ
  | [] => 0
  | b :: bs => b.toNat * 2 ^ (8 * bs.length) + value bs

/-- The `n` digits of a number, the highest first. -/
def bytesOf : ℕ → ℕ → List UInt8
  | 0, _ => []
  | n + 1, v => UInt8.ofNat (v / 2 ^ (8 * n)) :: bytesOf n (v % 2 ^ (8 * n))

/-- The `n` bytes of `p` leading ones. -/
def maskBytes : ℕ → ℕ → List UInt8
  | 0, _ => []
  | n + 1, p => UInt8.ofBitVec (mask 8 p) :: maskBytes n (p - 8)

@[simp] theorem length_maskBytes : ∀ n p : ℕ, (maskBytes n p).length = n
  | 0, _ => rfl
  | n + 1, p => by rw [maskBytes, List.length_cons, length_maskBytes n]

theorem getElem?_maskBytes : ∀ {n i : ℕ} (p : ℕ), i < n →
    (maskBytes n p)[i]? = some (UInt8.ofBitVec (mask 8 (p - 8 * i)))
  | n + 1, 0, p, _ => by rw [maskBytes, List.getElem?_cons_zero, Nat.mul_zero, Nat.sub_zero]
  | n + 1, i + 1, p, h => by
    rw [maskBytes, List.getElem?_cons_succ, getElem?_maskBytes (p - 8) (Nat.lt_of_succ_lt_succ h),
      Nat.sub_sub, Nat.mul_succ, Nat.add_comm]

theorem value_lt : ∀ bs : List UInt8, value bs < 2 ^ (8 * bs.length)
  | [] => Nat.one_pos
  | b :: bs => by
    have ih := value_lt bs
    have hb := b.toNat_lt
    have hmul := Nat.mul_le_mul_right (2 ^ (8 * bs.length)) (Nat.le_sub_one_of_lt hb)
    rw [value, List.length_cons, Nat.mul_succ, pow_add]
    omega

@[simp] theorem length_bytesOf : ∀ n v : ℕ, (bytesOf n v).length = n
  | 0, _ => rfl
  | n + 1, v => by rw [bytesOf, List.length_cons, length_bytesOf n]

theorem value_maskBytes : ∀ n p : ℕ, value (maskBytes n p) = 2 ^ (8 * n) - 2 ^ (8 * n - p)
  | 0, p => by rw [maskBytes, value, Nat.mul_zero, Nat.zero_sub, Nat.sub_self]
  | n + 1, p => by
    have hbyte : (UInt8.ofBitVec (mask 8 p)).toNat = 2 ^ 8 - 2 ^ (8 - p) := toNat_mask
    have hle : 2 ^ (8 * n - (p - 8)) ≤ 2 ^ (8 * n) :=
      Nat.pow_le_pow_right Nat.two_pos (Nat.sub_le _ _)
    rw [maskBytes, value, hbyte, length_maskBytes, value_maskBytes n, Nat.sub_mul, ← pow_add,
      ← pow_add, Nat.mul_succ, Nat.add_comm 8 (8 * n)]
    rcases Nat.lt_or_ge p 8 with h | h
    · rw [show 8 * n + 8 - p = 8 - p + 8 * n by omega, show 8 * n - (p - 8) = 8 * n by omega,
        Nat.sub_self, Nat.add_zero]
    · have hpow : 2 ^ (8 * n) ≤ 2 ^ (8 * n + 8) :=
        Nat.pow_le_pow_right Nat.two_pos (Nat.le_add_right _ _)
      rw [show 8 * n + 8 - p = 8 * n - (p - 8) by omega, show 8 - p + 8 * n = 8 * n by omega]
      omega

theorem bytesOf_value : ∀ bs : List UInt8, bytesOf bs.length (value bs) = bs
  | [] => rfl
  | b :: bs => by
    have hpos := Nat.two_pow_pos (8 * bs.length)
    have hdiv : value (b :: bs) / 2 ^ (8 * bs.length) = b.toNat := by
      rw [value, Nat.add_comm, Nat.add_mul_div_right _ _ hpos, Nat.div_eq_of_lt (value_lt bs),
        Nat.zero_add]
    have hmod : value (b :: bs) % 2 ^ (8 * bs.length) = value bs := by
      rw [value, Nat.add_comm, Nat.add_mul_mod_self_right, Nat.mod_eq_of_lt (value_lt bs)]
    rw [List.length_cons, bytesOf, hdiv, hmod, bytesOf_value bs, UInt8.ofNat_toNat]

theorem value_bytesOf : ∀ {n v : ℕ}, v < 2 ^ (8 * n) → value (bytesOf n v) = v
  | 0, v, h => by
    rw [Nat.mul_zero, pow_zero, Nat.lt_one_iff] at h
    rw [bytesOf, value, h]
  | n + 1, v, h => by
    have hpos := Nat.two_pow_pos (8 * n)
    have hdiv : v / 2 ^ (8 * n) < 256 := by
      rw [Nat.mul_succ, pow_add] at h
      exact Nat.div_lt_of_lt_mul h
    rw [bytesOf, value, length_bytesOf, UInt8.toNat_ofNat', Nat.mod_eq_of_lt hdiv,
      value_bytesOf (Nat.mod_lt _ hpos)]
    exact Nat.div_add_mod' v _

/-- A byte of a text is a digit of its value. -/
theorem toNat_eq_digit : ∀ {bs : List UInt8} {i : ℕ} {b : UInt8}, bs[i]? = some b →
    b.toNat = digit 8 (bs.length - 1 - i) (value bs)
  | c :: bs, 0, b, h => by
    obtain rfl : c = b := Option.some.inj h
    rw [List.length_cons, Nat.add_sub_cancel, Nat.sub_zero, digit, value, Nat.add_comm,
      Nat.add_mul_div_right _ _ (Nat.two_pow_pos _), Nat.div_eq_of_lt (value_lt bs), Nat.zero_add,
      Nat.mod_eq_of_lt c.toNat_lt]
  | c :: bs, i + 1, b, h => by
    rw [List.getElem?_cons_succ] at h
    have hi := (List.getElem?_eq_some_iff.1 h).1
    have hmem : value (c :: bs) % 2 ^ (8 * bs.length) = value bs := by
      rw [value, Nat.add_comm, Nat.add_mul_mod_self_right, Nat.mod_eq_of_lt (value_lt bs)]
    rw [toNat_eq_digit h, ← hmem, digit_mod (by omega), List.length_cons,
      show bs.length + 1 - 1 - (i + 1) = bs.length - 1 - i by omega]

theorem value_inj {bs cs : List UInt8} (hl : bs.length = cs.length) (h : value bs = value cs) :
    bs = cs := by
  rw [← bytesOf_value bs, ← bytesOf_value cs, hl, h]

theorem value_append : ∀ bs cs : List UInt8,
    value (bs ++ cs) = value bs * 2 ^ (8 * cs.length) + value cs
  | [], cs => by rw [List.nil_append, value, Nat.zero_mul, Nat.zero_add]
  | b :: bs, cs => by
    rw [List.cons_append, value, value, value_append bs cs, List.length_append, Nat.mul_add, pow_add,
      Nat.add_mul, Nat.mul_assoc, Nat.add_assoc]

theorem value_take (bs : List UInt8) (n : ℕ) :
    value (bs.take n) = value bs / 2 ^ (8 * (bs.length - n)) := by
  have hlt := value_lt (bs.drop n)
  have hsplit := value_append (bs.take n) (bs.drop n)
  rw [List.length_drop] at hlt hsplit
  rw [List.take_append_drop] at hsplit
  rw [hsplit, Nat.add_comm, Nat.add_mul_div_right _ _ (Nat.two_pow_pos _), Nat.div_eq_of_lt hlt,
    Nat.zero_add]

/-- One byte in front of the others, with as many digits masked as are left. -/
theorem first_cons (b : UInt8) (bs : List UInt8) (p : ℕ) :
    first (8 * (b :: bs).length - p) (value (b :: bs)) =
      first (8 - p) b.toNat * 2 ^ (8 * bs.length) + first (8 * bs.length - (p - 8)) (value bs) := by
  rw [value, List.length_cons, Nat.mul_succ]
  rcases Nat.lt_or_ge p 8 with h | h
  · rw [show 8 * bs.length + 8 - p = 8 * bs.length + (8 - p) by omega,
      first_mul_add (value_lt bs), Nat.sub_eq_zero_of_le (Nat.le_of_lt h), Nat.sub_zero,
      first_of_lt (value_lt bs), Nat.add_zero]
  · rw [show 8 * bs.length + 8 - p = 8 * bs.length - (p - 8) by omega,
      first_add_mul (Nat.sub_le _ _), Nat.sub_eq_zero_of_le h, first_zero]

theorem last_cons (b : UInt8) (bs : List UInt8) (p : ℕ) :
    last (8 * (b :: bs).length - p) (value (b :: bs)) =
      last (8 - p) b.toNat * 2 ^ (8 * bs.length) + last (8 * bs.length - (p - 8)) (value bs) := by
  rw [value, List.length_cons, Nat.mul_succ]
  rcases Nat.lt_or_ge p 8 with h | h
  · rw [show 8 * bs.length + 8 - p = 8 * bs.length + (8 - p) by omega,
      last_mul_add (value_lt bs), Nat.sub_eq_zero_of_le (Nat.le_of_lt h), Nat.sub_zero,
      last_of_lt (value_lt bs)]
  · rw [show 8 * bs.length + 8 - p = 8 * bs.length - (p - 8) by omega,
      last_add_mul (Nat.sub_le _ _), Nat.sub_eq_zero_of_le h, last_zero]

theorem value_and_mask : ∀ (bs : List UInt8) (p : ℕ),
    value (List.zipWith (· &&& ·) bs (maskBytes bs.length p)) = first (8 * bs.length - p) (value bs)
  | [], p => by
    rw [List.zipWith_nil_left, value, first_of_lt (Nat.two_pow_pos _)]
  | b :: bs, p => by
    have hb : (b &&& UInt8.ofBitVec (mask 8 p)).toNat = first (8 - p) b.toNat :=
      toNat_and_mask b.toBitVec
    rw [first_cons, ← value_and_mask bs, ← hb, List.length_cons, maskBytes, List.zipWith_cons_cons,
      value, List.length_zipWith, length_maskBytes, Nat.min_self]

theorem value_or_not_mask : ∀ (bs : List UInt8) (p : ℕ),
    value (List.zipWith (fun b m => b &&& m ||| ~~~m) bs (maskBytes bs.length p)) =
      last (8 * bs.length - p) (value bs)
  | [], p => by
    rw [List.zipWith_nil_left, value, List.length_nil, Nat.mul_zero, Nat.zero_sub, last_zero]
  | b :: bs, p => by
    have hb : (b &&& UInt8.ofBitVec (mask 8 p) ||| ~~~UInt8.ofBitVec (mask 8 p)).toNat =
        last (8 - p) b.toNat := toNat_or_not_mask b.toBitVec
    rw [last_cons, ← value_or_not_mask bs, ← hb, List.length_cons, maskBytes,
      List.zipWith_cons_cons, value, List.length_zipWith, length_maskBytes, Nat.min_self]

end Block
