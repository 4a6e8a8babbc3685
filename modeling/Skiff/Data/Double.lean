import Mathlib.Tactic.Linarith
import Mathlib.Tactic.Positivity
import Mathlib.Tactic.Ring

/-!
# Finite doubles and 64-bit integers

A finite double is a sign, a significand of at most 53 bits and an exponent, all
exact; its value is a multiple of the least positive double `2 ^ (-1074)`, so the
comparisons and conversions below are done on that integer multiple, without any
rounding. The only rounding is that of an integer to the nearest double.
-/

namespace Skiff

/-! ## Integers of 64 bits -/

abbrev U64 := { n : Nat // n < 2 ^ 64 }

abbrev I64 := { i : Int // -2 ^ 63 ≤ i ∧ i < 2 ^ 63 }

namespace I64

def least : I64 := ⟨-2 ^ 63, by decide⟩
def greatest : I64 := ⟨2 ^ 63 - 1, by decide⟩

/-- The integer of the range that is closest to `z`. -/
def saturate (z : Int) : I64 := ⟨max (-2 ^ 63) (min z (2 ^ 63 - 1)), by omega⟩

theorem saturate_of_le {z : Int} (hlow : -2 ^ 63 ≤ z) (hhigh : z ≤ 2 ^ 63 - 1) :
    (saturate z).1 = z := by
  simp only [saturate]
  omega

theorem saturate_of_ge {z : Int} (h : 2 ^ 63 - 1 ≤ z) : (saturate z).1 = 2 ^ 63 - 1 := by
  simp only [saturate]
  omega

end I64

/-! ## Doubles -/

/-- A finite double: `significand * 2 ^ (exponent - 1074)`, with its sign. The fields
are unique for every double; zero has two signs. -/
structure Double where
  negative : Bool
  significand : Nat
  exponent : Nat
  significand_lt : significand < 2 ^ 53
  normal : 2 ^ 52 ≤ significand ∨ exponent = 0
  exponent_le : exponent ≤ 2045
deriving DecidableEq

namespace Double

/-- The least positive double is `2 ^ (-bias)`. Nothing below depends on the number,
and powers of it should not be computed. -/
@[irreducible] def bias : Nat := 1074

/-- The number of least positive doubles in the integer 1. -/
def one : Int := 2 ^ bias

/-- The value as a multiple of the least positive double. -/
def scaled (d : Double) : Int :=
  if d.negative then -(d.significand * 2 ^ d.exponent : Nat) else
    (d.significand * 2 ^ d.exponent : Nat)

def value (d : Double) : ℚ := d.scaled / one

theorem one_pos : 0 < one := by
  unfold one
  positivity

/-- The fractional part, in units; it keeps the sign. -/
def fract (d : Double) : Int := d.scaled.tmod one

/-- The conversion to a signed integer: towards zero, and saturating. -/
def toI64 (d : Double) : I64 := I64.saturate (d.scaled.tdiv one)

/-- The value of the double nearest to an integer; halfway between two doubles it is
the one with an even significand. -/
def nearestNat (n : Nat) : Nat :=
  let unit := 2 ^ (n.log2 + 1 - 53)
  let quotient := n / unit
  let remainder := n % unit
  if 2 * remainder < unit ∨ (2 * remainder = unit ∧ quotient % 2 = 0) then quotient * unit
  else (quotient + 1) * unit

def nearest (i : Int) : Int := if i < 0 then -nearestNat i.natAbs else nearestNat i.natAbs

/-- Both ends of the signed range, as doubles: the upper end rounds up. -/
theorem nearest_ends : nearest I64.least.1 = -2 ^ 63 ∧ nearest I64.greatest.1 = 2 ^ 63 := by
  decide

theorem value_eq_intCast {d : Double} {z : Int} : d.value = z ↔ d.scaled = z * one := by
  have hone : (one : ℚ) ≠ 0 := by exact_mod_cast one_pos.ne'
  rw [value, div_eq_iff hone]
  exact_mod_cast Iff.rfl

theorem fract_eq_zero {d : Double} : d.fract = 0 ↔ d.scaled = d.scaled.tdiv one * one := by
  have hdiv := Int.mul_tdiv_add_tmod d.scaled one
  rw [fract]
  constructor
  · intro hfract
    rw [hfract, add_zero] at hdiv
    rw [mul_comm, hdiv]
  intro hscaled
  rw [mul_comm] at hscaled
  omega

/-- A significand of 53 bits gives no odd number of 63 bits, whatever the unit is. -/
theorem magnitude_ne_greatest {significand exponent : Nat} (h : significand < 2 ^ 53) (unit : Nat) :
    significand * 2 ^ exponent ≠ (2 ^ 63 - 1) * 2 ^ unit := by
  intro hmagnitude
  have hunit : 0 < 2 ^ unit := Nat.two_pow_pos unit
  by_cases hexponent : exponent ≤ unit
  · -- The significand is too short.
    have hsmall := calc significand * 2 ^ exponent
        ≤ significand * 2 ^ unit := Nat.mul_le_mul_left _ (Nat.pow_le_pow_right two_pos hexponent)
      _ < 2 ^ 53 * 2 ^ unit := Nat.mul_lt_mul_of_pos_right h hunit
      _ ≤ (2 ^ 63 - 1) * 2 ^ unit := Nat.mul_le_mul_right _ (by decide)
    exact absurd hmagnitude hsmall.ne
  -- The number is a multiple of two.
  obtain ⟨k, rfl⟩ := Nat.exists_eq_add_of_le (Nat.lt_of_not_le hexponent)
  have heven : significand * 2 ^ k * 2 * 2 ^ unit = (2 ^ 63 - 1) * 2 ^ unit := by
    rw [← hmagnitude, Nat.pow_add, Nat.pow_succ]
    ring
  have := Nat.eq_of_mul_eq_mul_right hunit heven
  omega

/-- The odd integer `2 ^ 63 - 1` is not a double. -/
theorem value_ne_greatest (d : Double) : d.value ≠ ((2 ^ 63 - 1 : Int) : ℚ) := by
  intro hvalue
  have hscaled := value_eq_intCast.mp hvalue
  have hpositive : 0 < (2 ^ 63 - 1) * one := mul_pos (by decide) one_pos
  unfold scaled at hscaled
  split at hscaled
  · omega
  have hcast : ((2 ^ 63 - 1 : Int)) = ((2 ^ 63 - 1 : Nat) : Int) := by decide
  rw [one, hcast] at hscaled
  exact magnitude_ne_greatest d.significand_lt bias (by exact_mod_cast hscaled)

/-- The double `2 ^ 63`. -/
def twoPow63 : Double where
  negative := false
  significand := 2 ^ 52
  exponent := bias + 11
  significand_lt := by decide
  normal := .inl le_rfl
  exponent_le := by
    unfold bias
    decide

theorem twoPow63_value : twoPow63.value = ((2 ^ 63 : Int) : ℚ) := by
  rw [value_eq_intCast]
  change ((2 ^ 52 * 2 ^ (bias + 11) : Nat) : Int) = 2 ^ 63 * 2 ^ bias
  push_cast
  rw [pow_add]
  ring

end Double

end Skiff
