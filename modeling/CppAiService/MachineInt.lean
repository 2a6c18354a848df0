import Mathlib.Algebra.Order.Ring.Int
import Mathlib.Tactic.Linarith

namespace CppAiService

/-- The value an `int` holds after an operation with this mathematical result. -/
def wrap32 (x : ℤ) : ℤ := Int.bmod x (2 ^ 32)

def sizeTOfInt (x : ℤ) : ℕ := (x % 2 ^ 64).toNat

def intOfSizeT (n : ℕ) : ℤ := wrap32 n

theorem wrap32_eq_self {x : ℤ} (h : -2 ^ 31 ≤ x) (h' : x < 2 ^ 31) : wrap32 x = x := by
  unfold wrap32
  rw [Int.bmod_def]
  split <;> omega

theorem wrap32_add_wrap32 (x y : ℤ) : wrap32 (wrap32 x + y) = wrap32 (x + y) :=
  Int.bmod_add_bmod

theorem wrap32_wrap32 (x : ℤ) : wrap32 (wrap32 x) = wrap32 x := Int.bmod_bmod

theorem wrap32_sub_one_add_one (x : ℤ) : wrap32 (wrap32 (x - 1) + 1) = wrap32 x := by
  rw [wrap32_add_wrap32, Int.sub_add_cancel]

theorem sizeTOfInt_of_nonneg {x : ℤ} (h : 0 ≤ x) (h' : x < 2 ^ 31) : (sizeTOfInt x : ℤ) = x := by
  unfold sizeTOfInt
  rw [Int.emod_eq_of_lt h (by omega)]
  exact Int.toNat_of_nonneg h

/-- The mixed division of a small non-negative `int` is the mathematical one. -/
theorem intOfSizeT_div {x : ℤ} (h : 0 ≤ x) (h' : x < 2 ^ 31) (n : ℕ) :
    intOfSizeT (sizeTOfInt x / n) = x / n := by
  have hq : ((sizeTOfInt x / n : ℕ) : ℤ) = x / n := by
    rw [Int.natCast_div, sizeTOfInt_of_nonneg h h']
  have hnn : 0 ≤ x / (n : ℤ) := Int.ediv_nonneg h (Int.natCast_nonneg n)
  have hle : x / (n : ℤ) ≤ x := Int.ediv_le_self _ h
  rw [intOfSizeT, hq, wrap32_eq_self (by omega) (by omega)]

end CppAiService
