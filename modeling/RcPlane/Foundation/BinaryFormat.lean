import Mathlib.Algebra.Order.Ring.Rat
import RcPlane.Foundation.Extended

/-!
# Binary floating-point formats

The value of a pattern of bits in a binary interchange format: a sign, a biased exponent and a
fraction. The largest exponent is that of the infinities and of not-a-number, and the exponent
zero that of the subnormal numbers.

## Main definitions

* `BinaryFormat`: the widths of a format
* `BinaryFormat.value`: the value of a pattern
* `BinaryFormat.IsFinite`: the exponent is not the largest one

## Main results

* `BinaryFormat.isNum_value`: the finite patterns are those of numbers
-/

namespace Foundation

/-- The widths of the exponent and of the fraction. -/
structure BinaryFormat where
  exponentBits : ℕ
  fractionBits : ℕ

namespace BinaryFormat

/-- The format of a `float`. -/
def binary32 : BinaryFormat := ⟨8, 23⟩

variable (f : BinaryFormat) (bits : ℕ)

/-- The pattern is one of a negative value. -/
def IsNegative : Prop := bits / 2 ^ (f.exponentBits + f.fractionBits) % 2 = 1

instance : Decidable (f.IsNegative bits) := inferInstanceAs (Decidable (_ = _))

/-- The biased exponent. -/
def exponent : ℕ := bits / 2 ^ f.fractionBits % 2 ^ f.exponentBits

/-- The fraction. -/
def fraction : ℕ := bits % 2 ^ f.fractionBits

/-- The exponent of the last bit of a significand with the given biased exponent. -/
def unitExponent (exponent : ℕ) : ℤ :=
  exponent - (2 ^ (f.exponentBits - 1) - 1 : ℕ) - f.fractionBits

/-- The exponent is not that of the infinities. -/
def IsFinite : Prop := f.exponent bits ≠ 2 ^ f.exponentBits - 1

instance : Decidable (f.IsFinite bits) := inferInstanceAs (Decidable (_ ≠ _))

/-- A natural number times a power of two. -/
def scale (n : ℕ) (k : ℤ) : ℚ := if 0 ≤ k then n * 2 ^ k.toNat else n / 2 ^ (-k).toNat

/-- The magnitude of a finite pattern. -/
def magnitude : ℚ :=
  -- the significand of a subnormal number has no leading one, and its exponent is that of the
  -- smallest normal numbers
  if f.exponent bits = 0 then scale (f.fraction bits) (f.unitExponent 1)
  else scale (2 ^ f.fractionBits + f.fraction bits) (f.unitExponent (f.exponent bits))

/-- The value of a pattern. -/
def value : Extended ℚ :=
  if f.IsFinite bits then .num (if f.IsNegative bits then -f.magnitude bits else f.magnitude bits)
  else if f.fraction bits ≠ 0 then .nan
  else if f.IsNegative bits then .negInf
  else .posInf

theorem isNum_value : (f.value bits).IsNum ↔ f.IsFinite bits := by
  by_cases hfinite : f.IsFinite bits
  · rw [value, if_pos hfinite]
    exact iff_of_true (Extended.isNum_num _) hfinite
  · rw [value, if_neg hfinite]
    split_ifs
    all_goals exact iff_of_false id hfinite

/-- Minus six and a quarter: `-1.5625 * 2 ^ 2`. -/
example : binary32.value 0xc0c80000 = .num (-25 / 4) := by decide +kernel

end BinaryFormat

end Foundation
