import Mathlib.Algebra.Order.Field.Power
import Mathlib.Algebra.Order.Field.Rat
import Mathlib.Tactic.FieldSimp
import Mathlib.Tactic.Ring

/-! The finite numbers of the binary64 format, and their exact values. -/

/-- A finite number: the biased exponent is below that of infinities and NaNs. -/
structure Binary64 where
  negative : Bool
  exponent : Nat
  fraction : Nat
  exponent_lt : exponent < 2047
  fraction_lt : fraction < 2 ^ 52

/-- The whole number nearest to a quotient; a number halfway between two goes to the even one. -/
def divHalfEven (a b : Nat) : Nat :=
  let q := a / b
  let r := a % b
  if 2 * r < b ∨ 2 * r = b ∧ q % 2 = 0 then q else q + 1

theorem div_le_divHalfEven (a b : Nat) : a / b ≤ divHalfEven a b := by
  simp only [divHalfEven]
  split <;> omega

namespace Binary64

variable {x : Binary64}

/-- The absolute value. -/
def abs (x : Binary64) : Rat :=
  if x.exponent = 0 then 2 ^ (-1074 : Int) * x.fraction
  else 2 ^ ((x.exponent : Int) - 1075) * (2 ^ 52 + x.fraction : Nat)

/-- The absolute value as a multiple of the smallest positive one. -/
def units (x : Binary64) : Nat :=
  if x.exponent = 0 then x.fraction else (2 ^ 52 + x.fraction) * 2 ^ (x.exponent - 1)

/-- The multiple that 1 is. -/
def unitsOfOne : Nat := 2 ^ 1074

theorem unitsOfOne_pos : 0 < unitsOfOne := by
  rw [unitsOfOne]
  exact pow_pos two_pos 1074

/-- The whole number nearest to the absolute value. -/
def nearest (x : Binary64) : Nat := divHalfEven x.units unitsOfOne

theorem abs_eq (x : Binary64) : x.abs = (x.units : Rat) / unitsOfOne := by
  have hone : (unitsOfOne : Rat) = (2 : Rat) ^ (1074 : Int) := by
    rw [unitsOfOne, Nat.cast_pow]
    exact (zpow_natCast 2 1074).symm
  rw [abs, units, hone]
  split
  · rw [zpow_neg, inv_mul_eq_div]
  · rename_i h
    have hexp : (x.exponent : Int) - 1075 = ((x.exponent - 1 : Nat) : Int) - 1074 := by omega
    rw [hexp, zpow_sub₀ two_ne_zero, zpow_natCast, Nat.cast_mul, Nat.cast_pow]
    ring

/-- Whole bounds of the absolute value. -/
theorem natCast_le_abs_iff (n : Nat) : (n : Rat) ≤ x.abs ↔ n ≤ x.units / unitsOfOne := by
  have hpos : (0 : Rat) < unitsOfOne := Nat.cast_pos.mpr unitsOfOne_pos
  rw [abs_eq, le_div_iff₀ hpos, ← Nat.cast_mul, Nat.cast_le, Nat.le_div_iff_mul_le unitsOfOne_pos]

theorem abs_lt_natCast_iff (n : Nat) : x.abs < n ↔ x.units / unitsOfOne < n := by
  rw [← not_le, natCast_le_abs_iff, not_le]

end Binary64
