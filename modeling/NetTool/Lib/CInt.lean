import Mathlib.Algebra.Ring.Int.Defs
import Mathlib.Algebra.Ring.Nat

/-!
# C's machine integers

An integer of the machine is its value; storing a value in a narrower type keeps what the type
can hold of it. `i8`, `i32`, `i64`, `u32` and `u64` are the conversions to `char`, `int`, `long`,
`unsigned int` and `size_t` of a 64-bit machine.
-/

namespace CInt

/-- The value kept by a signed `char`. -/
def i8 (x : ℤ) : ℤ := (x + 2 ^ 7) % 2 ^ 8 - 2 ^ 7

/-- The value kept by a 32-bit `int`. -/
def i32 (x : ℤ) : ℤ := (x + 2 ^ 31) % 2 ^ 32 - 2 ^ 31

/-- The value kept by a 64-bit `long`. -/
def i64 (x : ℤ) : ℤ := (x + 2 ^ 63) % 2 ^ 64 - 2 ^ 63

/-- The value kept by a 32-bit `unsigned int`. -/
def u32 (x : ℤ) : ℕ := (x % 2 ^ 32).toNat

/-- The value kept by a 64-bit `size_t`. -/
def u64 (x : ℤ) : ℕ := (x % 2 ^ 64).toNat

theorem i32_of_mem {x : ℤ} (h : -2 ^ 31 ≤ x) (h' : x < 2 ^ 31) : i32 x = x := by
  unfold i32
  omega

theorem i64_of_mem {x : ℤ} (h : -2 ^ 63 ≤ x) (h' : x < 2 ^ 63) : i64 x = x := by
  unfold i64
  omega

theorem u32_of_mem {x : ℤ} (h : 0 ≤ x) (h' : x < 2 ^ 32) : (u32 x : ℤ) = x := by
  unfold u32
  omega

theorem u32_lt (x : ℤ) : u32 x < 2 ^ 32 := by
  unfold u32
  omega

theorem u64_of_mem {x : ℤ} (h : 0 ≤ x) (h' : x < 2 ^ 64) : (u64 x : ℤ) = x := by
  unfold u64
  omega

theorem i32_u32 (x : ℤ) : i32 (u32 x) = i32 x := by
  unfold i32 u32
  omega

theorem i32_u64 (x : ℤ) : i32 (u64 x) = i32 x := by
  unfold i32 u64
  omega

/-- A negative `int` cast to `unsigned int` is at least `2 ^ 31`. -/
theorem u32_of_neg {x : ℤ} (h : x < 0) (h' : -2 ^ 31 ≤ x) : (u32 x : ℤ) = x + 2 ^ 32 := by
  unfold u32
  omega

end CInt
