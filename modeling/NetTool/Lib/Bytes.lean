import Mathlib.Algebra.Ring.Nat
import Mathlib.Data.List.Range

/-!
# Byte memories

A memory gives each offset its byte; `get16`, `get32` and `set16`, `set32` are the little-endian
loads and stores. `slice m o n` is the `n` bytes from `o` on, and `overlay bs m` is the memory `m`
with `bs` copied to its start. Every store is a `setBytes`: what it wrote is read back
(`slice_setBytes`), and what is apart from it is as before (`setBytes_apart`).
-/

namespace Bytes

abbrev Mem := ℕ → UInt8

def get8 (m : Mem) (o : ℕ) : ℕ := (m o).toNat

def get16 (m : Mem) (o : ℕ) : ℕ := get8 m o + 256 * get8 m (o + 1)

def get32 (m : Mem) (o : ℕ) : ℕ := get16 m o + 65536 * get16 m (o + 2)

/-- `memcpy` from a list of bytes. -/
def setBytes (m : Mem) (o : ℕ) (bs : List UInt8) : Mem :=
  fun a => if o ≤ a then bs.getD (a - o) (m a) else m a

def le16 (v : ℕ) : List UInt8 := [UInt8.ofNat v, UInt8.ofNat (v / 256)]

def le32 (v : ℕ) : List UInt8 := le16 v ++ le16 (v / 65536)

abbrev set8 (m : Mem) (o v : ℕ) : Mem := setBytes m o [UInt8.ofNat v]

abbrev set16 (m : Mem) (o v : ℕ) : Mem := setBytes m o (le16 v)

abbrev set32 (m : Mem) (o v : ℕ) : Mem := setBytes m o (le32 v)

/-- `memset` of `n` bytes. -/
abbrev fill (m : Mem) (o n v : ℕ) : Mem := setBytes m o (List.replicate n (UInt8.ofNat v))

def overlay (bs : List UInt8) (m : Mem) : Mem := fun a => bs.getD a (m a)

def ofList (bs : List UInt8) : Mem := overlay bs fun _ => 0

def slice (m : Mem) (o n : ℕ) : List UInt8 := (List.range' o n).map m

/-- The memory seen from `o` on. -/
def shift (m : Mem) (o : ℕ) : Mem := fun a => m (o + a)

/-- The string at `o`, up to its null byte or `n` bytes. -/
def cstr (m : Mem) (o n : ℕ) : List UInt8 := (slice m o n).takeWhile (· ≠ 0)

variable {m m' : Mem} {o : ℕ}

theorem get16_congr (h : ∀ a, o ≤ a → a < o + 2 → m a = m' a) : get16 m o = get16 m' o := by
  simp only [get16, get8, h o (by omega) (by omega), h (o + 1) (by omega) (by omega)]

theorem get32_congr (h : ∀ a, o ≤ a → a < o + 4 → m a = m' a) : get32 m o = get32 m' o := by
  unfold get32
  rw [get16_congr fun a h1 h2 => h a h1 (by omega),
    get16_congr (o := o + 2) fun a h1 h2 => h a (by omega) (by omega)]

theorem get16_lt (m : Mem) (o : ℕ) : get16 m o < 65536 := by
  have h0 := (m o).toNat_lt
  have h1 := (m (o + 1)).toNat_lt
  unfold get16 get8
  omega

theorem get32_lt (m : Mem) (o : ℕ) : get32 m o < 2 ^ 32 := by
  have h0 := get16_lt m o
  have h1 := get16_lt m (o + 2)
  unfold get32
  omega

@[simp] theorem get8_shift (a : ℕ) : get8 (shift m o) a = get8 m (o + a) := rfl

@[simp] theorem get16_shift (a : ℕ) : get16 (shift m o) a = get16 m (o + a) := rfl

@[simp] theorem get32_shift (a : ℕ) : get32 (shift m o) a = get32 m (o + a) := rfl

@[simp] theorem slice_length (n : ℕ) : (slice m o n).length = n := by simp [slice]

theorem getElem_slice {n i : ℕ} (h : i < (slice m o n).length) : (slice m o n)[i] = m (o + i) := by
  simp [slice]

theorem slice_append (a b : ℕ) : slice m o (a + b) = slice m o a ++ slice m (o + a) b := by
  simp [slice, ← List.map_append, List.range'_append_1]

theorem slice_append_inj {as bs : List UInt8} (h : slice m o (as ++ bs).length = as ++ bs) :
    slice m o as.length = as ∧ slice m (o + as.length) bs.length = bs := by
  rw [List.length_append, slice_append] at h
  exact List.append_inj h (slice_length _)

theorem take_slice {j n : ℕ} (h : j ≤ n) : (slice m o n).take j = slice m o j := by
  rw [show n = j + (n - j) by omega, slice_append]
  exact List.take_left' (slice_length j)

theorem slice_congr {n : ℕ} (h : ∀ a, o ≤ a → a < o + n → m a = m' a) :
    slice m o n = slice m' o n := by
  unfold slice
  refine List.map_congr_left fun a ha => ?_
  rw [List.mem_range'_1] at ha
  exact h a ha.1 ha.2

theorem takeWhile_of_zero : ∀ {l l' : List UInt8} {k : ℕ}, l.take (k + 1) = l'.take (k + 1) →
    l[k]? = some 0 → l.takeWhile (· ≠ 0) = l'.takeWhile (· ≠ 0)
  | a :: l, a' :: l', k, h, h0 => by
    rw [List.take_succ_cons, List.take_succ_cons] at h
    obtain ⟨rfl, h'⟩ := List.cons.inj h
    rcases k with _ | k
    · obtain rfl : a = 0 := by simpa using h0
      rfl
    · rw [List.takeWhile_cons, List.takeWhile_cons, takeWhile_of_zero h' (by simpa using h0)]
  | a :: l, [], k, h, _ => by simp at h

theorem length_takeWhile_le : ∀ {l : List UInt8} {k : ℕ}, l[k]? = some 0 →
    (l.takeWhile (· ≠ 0)).length ≤ k
  | a :: l, 0, h => by
    obtain rfl : a = 0 := by simpa using h
    exact Nat.le_refl 0
  | a :: l, k + 1, h => by
    have ih := @length_takeWhile_le l k (by simpa using h)
    rw [List.takeWhile_cons]
    split_ifs
    · exact Nat.succ_le_succ ih
    · exact Nat.zero_le _

/-- A string ends at its null byte, whatever stands behind it. -/
theorem cstr_of_slice {bs : List UInt8} (h : slice m o bs.length = bs) {k n : ℕ}
    (h0 : bs[k]? = some 0) (hk : k < n) : cstr m o n = bs.takeWhile (· ≠ 0) := by
  have hkb : k < bs.length := (List.getElem?_eq_some_iff.1 h0).1
  have htake : (slice m o n).take (k + 1) = bs.take (k + 1) := by
    rw [take_slice (by omega), ← @take_slice m o (k + 1) bs.length (by omega), h]
  refine takeWhile_of_zero htake ?_
  have hget := congrArg (fun l => l[k]?) htake
  simpa [h0] using hget

theorem slice_cstr (m : Mem) (o n : ℕ) : slice m o (cstr m o n).length = cstr m o n := by
  have hpre : cstr m o n <+: slice m o n := List.takeWhile_prefix _
  have hlen := hpre.length_le
  rw [slice_length] at hlen
  rw [← take_slice hlen]
  exact (List.prefix_iff_eq_take.1 hpre).symm

theorem slice_of_cstr {n k : ℕ} (h : k ≤ (cstr m o n).length) :
    slice m o k = (cstr m o n).take k := by
  rw [← slice_cstr, take_slice h]

theorem head_of_cstr_nil {n : ℕ} (h : cstr m o (n + 1) = []) : m o = 0 := by
  rw [cstr, slice, List.range'_succ, List.map_cons, List.takeWhile_cons] at h
  split_ifs at h with h0
  simpa using h0

theorem ne_zero_of_mem_cstr {n : ℕ} {b : UInt8} (h : b ∈ cstr m o n) : b ≠ 0 :=
  of_decide_eq_true (List.all_eq_true.1 List.all_takeWhile b h)

theorem overlay_of_lt {bs : List UInt8} {a : ℕ} (h : a < bs.length) : overlay bs m a = bs[a] := by
  simp [overlay, h]

theorem overlay_of_ge {bs : List UInt8} {a : ℕ} (h : bs.length ≤ a) : overlay bs m a = m a := by
  simp [overlay, h]

theorem slice_overlay (bs : List UInt8) (m : Mem) : slice (overlay bs m) 0 bs.length = bs := by
  refine List.ext_getElem (by simp) fun i h1 h2 => ?_
  rw [getElem_slice, Nat.zero_add, overlay_of_lt h2]

/-- The memory from `o` on begins as `bs` when `bs` is there. -/
theorem shift_eq_overlay {bs : List UInt8} (h : slice m o bs.length = bs) (m' : Mem) {a : ℕ}
    (ha : a < bs.length) : shift m o a = overlay bs m' a := by
  have hs : a < (slice m o bs.length).length := by simpa using ha
  rw [overlay_of_lt ha]
  calc shift m o a = (slice m o bs.length)[a] := (getElem_slice hs).symm
    _ = bs[a] := by simp only [h]

theorem byte_of_slice {bs : List UInt8} (h : slice m o bs.length = bs) {k : ℕ}
    (hk : k < bs.length) : m (o + k) = bs[k] :=
  (shift_eq_overlay h m hk).trans (overlay_of_lt hk)

theorem byte_of_slice_eq {n k : ℕ} (h : slice m o n = slice m' o n) (hk : k < n) :
    m (o + k) = m' (o + k) := by
  have hs : slice m o (slice m' o n).length = slice m' o n := by rw [slice_length, h]
  rw [byte_of_slice hs (by rwa [slice_length]), getElem_slice]

theorem get32_of_slice {bs : List UInt8} (h : slice m o bs.length = bs) {a : ℕ}
    (ha : a + 4 ≤ bs.length) : get32 m (o + a) = get32 (ofList bs) a := by
  rw [← get32_shift]
  exact get32_congr fun b _ hb => shift_eq_overlay h _ (by omega)

theorem get16_of_slice {bs : List UInt8} (h : slice m o bs.length = bs) {a : ℕ}
    (ha : a + 2 ≤ bs.length) : get16 m (o + a) = get16 (ofList bs) a := by
  rw [← get16_shift]
  exact get16_congr fun b _ hb => shift_eq_overlay h _ (by omega)

theorem get8_of_slice {bs : List UInt8} (h : slice m o bs.length = bs) {a : ℕ}
    (ha : a < bs.length) : get8 m (o + a) = get8 (ofList bs) a := by
  rw [← get8_shift]
  simp only [get8, shift_eq_overlay h (fun _ => 0) ha, ofList]

/-! ## Stores -/

/-- The `n` bytes from `a` on and the `k` from `b` on have none in common. -/
def Apart (a n b k : ℕ) : Prop := a + n ≤ b ∨ b + k ≤ a

@[simp] theorem length_le16 (v : ℕ) : (le16 v).length = 2 := rfl

@[simp] theorem length_le32 (v : ℕ) : (le32 v).length = 4 := rfl

variable {bs : List UInt8} {a n : ℕ}

theorem setBytes_apart (h : Apart a 1 o bs.length) : setBytes m o bs a = m a := by
  unfold Apart at h
  unfold setBytes
  split_ifs with hle
  · rw [List.getD_eq_getElem?_getD, List.getElem?_eq_none (by omega), Option.getD_none]
  · rfl

theorem setBytes_inside (h : ¬ Apart a 1 o bs.length) (m m' : Mem) :
    setBytes m o bs a = setBytes m' o bs a := by
  unfold Apart at h
  unfold setBytes
  rw [if_pos (by omega), if_pos (by omega), List.getD_eq_getElem?_getD,
    List.getD_eq_getElem?_getD, List.getElem?_eq_getElem (by omega), Option.getD_some,
    Option.getD_some]

theorem setBytes_comm {bs' : List UInt8} {o' : ℕ} (h : Apart o bs.length o' bs'.length)
    (m : Mem) : setBytes (setBytes m o bs) o' bs' = setBytes (setBytes m o' bs') o bs := by
  funext a
  unfold Apart at h
  by_cases ha : Apart a 1 o bs.length
  · rw [setBytes_apart ha]
    by_cases ha' : Apart a 1 o' bs'.length
    · rw [setBytes_apart ha', setBytes_apart ha', setBytes_apart ha]
    · exact setBytes_inside ha' _ _
  · have ha' : Apart a 1 o' bs'.length := by
      unfold Apart at ha ⊢
      omega
    rw [setBytes_apart ha']
    exact setBytes_inside ha _ _

theorem slice_setBytes (m : Mem) (o : ℕ) (bs : List UInt8) :
    slice (setBytes m o bs) o bs.length = bs := by
  refine List.ext_getElem (by simp) fun i h1 h2 => ?_
  rw [getElem_slice]
  simp [setBytes, h2]

theorem slice_setBytes_apart (h : Apart a n o bs.length) :
    slice (setBytes m o bs) a n = slice m a n := by
  unfold Apart at h
  refine slice_congr fun b h1 h2 => setBytes_apart ?_
  unfold Apart
  omega

theorem get8_setBytes_apart (h : Apart a 1 o bs.length) :
    get8 (setBytes m o bs) a = get8 m a := by
  unfold get8
  rw [setBytes_apart h]

theorem get16_setBytes_apart (h : Apart a 2 o bs.length) :
    get16 (setBytes m o bs) a = get16 m a := by
  unfold Apart at h
  refine get16_congr fun b h1 h2 => setBytes_apart ?_
  unfold Apart
  omega

theorem get32_setBytes_apart (h : Apart a 4 o bs.length) :
    get32 (setBytes m o bs) a = get32 m a := by
  unfold Apart at h
  refine get32_congr fun b h1 h2 => setBytes_apart ?_
  unfold Apart
  omega

theorem get16_le16 {v : ℕ} (hv : v < 65536) (h : slice m o 2 = le16 v) : get16 m o = v := by
  have h0 := @get16_of_slice m o (le16 v) h 0 le_rfl
  rw [Nat.add_zero] at h0
  rw [h0]
  simp [get16, get8, ofList, overlay, le16]
  omega

theorem get32_le32 {v : ℕ} (hv : v < 2 ^ 32) (h : slice m o 4 = le32 v) : get32 m o = v := by
  have h0 := @get32_of_slice m o (le32 v) h 0 le_rfl
  rw [Nat.add_zero] at h0
  rw [h0]
  simp [get32, get16, get8, ofList, overlay, le32, le16]
  omega

theorem ofNat_get8 (m : Mem) (o x : ℕ) : UInt8.ofNat (get8 m o + 256 * x) = m o := by
  rw [← UInt8.toNat_inj, UInt8.toNat_ofNat']
  have := (m o).toNat_lt
  unfold get8
  omega

theorem le16_get16 (m : Mem) (o x : ℕ) : le16 (get16 m o + 65536 * x) = slice m o 2 := by
  have h0 : get16 m o + 65536 * x = get8 m o + 256 * (get8 m (o + 1) + 256 * x) := by
    unfold get16
    omega
  have h1 : (get16 m o + 65536 * x) / 256 = get8 m (o + 1) + 256 * x := by
    have := (m o).toNat_lt
    rw [h0]
    unfold get8
    omega
  rw [le16, h1, h0, ofNat_get8, ofNat_get8]
  rfl

/-- The bytes of what is loaded are the bytes that stand there. -/
theorem le32_get32 (m : Mem) (o : ℕ) : le32 (get32 m o) = slice m o 4 := by
  have hd : get32 m o / 65536 = get16 m (o + 2) + 65536 * 0 := by
    have := get16_lt m o
    unfold get32
    omega
  rw [le32, hd, get32, le16_get16, le16_get16, ← slice_append]

theorem get8_set8 (m : Mem) (o v : ℕ) : get8 (set8 m o v) o = v % 256 := by
  simp [get8, setBytes]

theorem get16_set16 {v : ℕ} (hv : v < 65536) (m : Mem) (o : ℕ) : get16 (set16 m o v) o = v :=
  get16_le16 hv (slice_setBytes m o (le16 v))

theorem get32_set32 {v : ℕ} (hv : v < 2 ^ 32) (m : Mem) (o : ℕ) : get32 (set32 m o v) o = v :=
  get32_le32 hv (slice_setBytes m o (le32 v))

end Bytes
