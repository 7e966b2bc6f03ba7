import Mathlib.Algebra.Order.Round
import Mathlib.Data.Rat.Floor
import Mathlib.Tactic.FieldSimp
import Mathlib.Tactic.Ring

/- Quotients rounded to the nearest integer, halves upwards.

   `roundDiv n d` is `n / d` rounded (`round_eq_roundDiv`). It is what is left of a
   quotient and a remainder (`roundDiv_eq`). Rounding twice is wrong in general: a quarter is
   rounded to 0, but its double to 1, and half of that to 1 again. It is right where the
   second divisor is odd, for then no half comes out of the second division
   (`roundDiv_roundDiv_of_odd`). -/
namespace X86Kernel.Lib

/-- `n / d` to the nearest integer, halves upwards. -/
def roundDiv (n d : Nat) : Nat := (2 * n + d) / (2 * d)

theorem round_eq_roundDiv (n : Nat) {d : Nat} (hd : 0 < d) :
    round ((n : ℚ) / d) = (roundDiv n d : ℤ) := by
  have hne : (d : ℚ) ≠ 0 := Nat.cast_ne_zero.2 hd.ne'
  have hsum : (n : ℚ) / d + 1 / 2 = ((2 * n + d : ℕ) : ℚ) / ((2 * d : ℕ) : ℚ) := by
    push_cast
    field_simp
  rw [round_eq, hsum, Rat.floor_natCast_div_natCast]
  rfl

theorem roundDiv_eq (n : Nat) {d : Nat} (hd : 0 < d) :
    roundDiv n d = n / d + if d ≤ 2 * (n % d) then 1 else 0 := by
  have hsplit : 2 * n + d = 2 * (n % d) + d + 2 * d * (n / d) := by
    calc 2 * n + d = 2 * (d * (n / d) + n % d) + d := by rw [Nat.div_add_mod]
      _ = 2 * (n % d) + d + 2 * d * (n / d) := by ring
  have hmod := Nat.mod_lt n hd
  rw [roundDiv, hsplit, Nat.add_mul_div_left _ _ (by omega), Nat.add_comm]
  congr 1
  split_ifs with hhalf
  · exact Nat.div_eq_of_lt_le (by omega) (by omega)
  · exact Nat.div_eq_of_lt (by omega)

/-- In halves, an odd divisor is never reached half-way. -/
theorem roundDiv_odd (n m : Nat) : roundDiv n (2 * m + 1) = (n + m) / (2 * m + 1) := by
  have hsum : 2 * n + (2 * m + 1) = 2 * (n + m) + 1 := by ring
  rw [roundDiv, hsum, ← Nat.div_div_eq_div_mul]
  congr 1
  omega

/-- Rounding to multiples of `a`, and the result to multiples of an odd `b`. -/
theorem roundDiv_roundDiv_of_odd (n : Nat) {a b : Nat} (ha : 0 < a) (hb : Odd b) :
    roundDiv (roundDiv n a) b = roundDiv n (a * b) := by
  obtain ⟨m, rfl⟩ := hb
  have hshift : (2 * n + a) / (2 * a) + m = (2 * n + a + 2 * a * m) / (2 * a) :=
    (Nat.add_mul_div_left _ _ (by omega)).symm
  have hsum : 2 * n + a + 2 * a * m = 2 * n + a * (2 * m + 1) := by ring
  rw [roundDiv_odd, roundDiv, hshift, Nat.div_div_eq_div_mul, hsum, roundDiv, Nat.mul_assoc]

theorem roundDiv_le {n d k : Nat} (hd : 0 < d) (h : 2 * n + d < 2 * d * (k + 1)) :
    roundDiv n d ≤ k := by
  apply Nat.le_of_lt_succ
  rw [roundDiv, Nat.div_lt_iff_lt_mul (by omega), Nat.mul_comm k.succ]
  exact h

theorem le_roundDiv {n d k : Nat} (hd : 0 < d) (h : 2 * d * k ≤ 2 * n + d) :
    k ≤ roundDiv n d := by
  rw [roundDiv, Nat.le_div_iff_mul_le (by omega), Nat.mul_comm]
  exact h

end X86Kernel.Lib
