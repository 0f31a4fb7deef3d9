import RcPlane.Foundation.Narrowing
import RcPlane.Common.Packet

/-!
# The autopilot utility

The configured limits, and the functions that bind stick positions and PID outputs to them. A
stick is rescaled in `int` arithmetic and the result is narrowed to its 8-bit return type, with
no clamp; a PID output is clamped.

The `double` arithmetic of the controllers is a parameter: `Double D` names the operations the
code performs, so that what does not depend on rounding is proved for every arithmetic, and what
is stated over exact rationals is the instance at `ℚ`.

## Main definitions

* `Double D`: the operations of `double`
* `narrow`: the conversion of a `double` to `int8_t`
* `AutopilotUtility`: the limits
* `bindToRange`: the rescale, before it is narrowed
* `bindRcThrottle`, `bindRcAileronDeflection`, `bindRcElevatorDeflection`,
  `bindRcRudderDeflection`, `bindPidAileronDeflection`, `bindPidElevatorDeflection`
-/

namespace RcPlane

open Foundation

/-! ## Doubles -/

/-- The operations on `double` that the controllers use. -/
class Double (D : Type) extends Zero D, Add D, Sub D, Mul D, Div D, Neg D, LT D, IntCast D,
    OfScientific D where
  decLT : ∀ x y : D, Decidable (x < y)
  /-- The conversion to `int8_t` where C++ defines it: truncation toward zero, of a value whose
  truncation is an `int8_t`. -/
  toInt8? : D → Option Int8

instance instDecidableLTDouble {D : Type} [Double D] : DecidableLT D := Double.decLT

/-- Exact rationals. -/
instance : Double ℚ where
  decLT := inferInstance
  toInt8? x := if -129 < x ∧ x < 128 then some (Int8.ofInt (truncate x)) else none

/-- The conversion of `x` to `int8_t`. C++ leaves the value of an out-of-range conversion open:
it is `outOfRange x`. -/
def narrow {D : Type} [Double D] (outOfRange : D → Int8) (x : D) : Int8 :=
  (Double.toInt8? x).getD (outOfRange x)

/-- A rational that lies in the range of `int8_t` is narrowed to its truncation. -/
theorem narrow_of_mem {outOfRange : ℚ → Int8} {x : ℚ} (h₁ : -128 ≤ x) (h₂ : x ≤ 127) :
    (narrow outOfRange x).toInt = truncate x := by
  have hr : -129 < x ∧ x < 128 := ⟨by linarith, by linarith⟩
  have ht := truncate_mem_of_mem (a := -128) (b := 127) (by simpa using h₁) (by simpa using h₂)
  simp only [narrow, Double.toInt8?, if_pos hr, Option.getD_some]
  exact int8_ofInt_of_mem ht.1 ht.2

/-! ## The limits and the rescale -/

/-- The limits read from the configuration. -/
structure AutopilotUtility where
  maxThrottle : UInt8
  maxAileronDeflection : Int8
  maxElevatorDeflection : Int8
  maxRudderDeflection : Int8
deriving DecidableEq, Repr

/-- The rescale of a value from one range to another, as the `int` it is computed in. -/
def bindToRange (value inputMin inputMax outputMin outputMax : ℤ) : ℤ :=
  ((value - inputMin) * (outputMax - outputMin)).tdiv (inputMax - inputMin) + outputMin

/-- The rescale of a stick in `[-100, 100]` to `[-limit, limit]`, narrowed to `int8_t`. -/
def bindRcDeflection (limit value : Int8) : Int8 :=
  Int8.ofInt
    (bindToRange value.toInt (-100) 100 (Int8.ofInt (-limit.toInt)).toInt limit.toInt)

namespace AutopilotUtility

variable (u : AutopilotUtility)

/-- Bind the throttle stick. -/
def bindRcThrottle (value : UInt8) : UInt8 :=
  UInt8.ofInt (bindToRange value.toNat 0 100 0 u.maxThrottle.toNat)

/-- Bind the aileron stick. -/
def bindRcAileronDeflection (value : Int8) : Int8 :=
  bindRcDeflection u.maxAileronDeflection value

/-- Bind the elevator stick. -/
def bindRcElevatorDeflection (value : Int8) : Int8 :=
  bindRcDeflection u.maxElevatorDeflection value

/-- Bind the rudder stick. -/
def bindRcRudderDeflection (value : Int8) : Int8 :=
  bindRcDeflection u.maxRudderDeflection value

/-- Clamp the roll controller's output, as a `double`. -/
def bindPidAileronDeflection {D : Type} [Double D] (value : D) : D :=
  if (u.maxAileronDeflection.toInt : D) < value then (u.maxAileronDeflection.toInt : D)
  else if value < ((-u.maxAileronDeflection.toInt : ℤ) : D) then
    ((-u.maxAileronDeflection.toInt : ℤ) : D)
  else value

/-- Clamp the pitch controller's output, already narrowed to `int8_t`. -/
def bindPidElevatorDeflection (value : Int8) : Int8 :=
  if u.maxElevatorDeflection.toInt < value.toInt then u.maxElevatorDeflection
  else if value.toInt < -u.maxElevatorDeflection.toInt then
    Int8.ofInt (-u.maxElevatorDeflection.toInt)
  else value

/-- No deflection limit is negative; the throttle limit is unsigned. -/
structure NonNeg : Prop where
  aileron : 0 ≤ u.maxAileronDeflection.toInt
  elevator : 0 ≤ u.maxElevatorDeflection.toInt
  rudder : 0 ≤ u.maxRudderDeflection.toInt

instance : Decidable u.NonNeg :=
  decidable_of_iff (0 ≤ u.maxAileronDeflection.toInt ∧ 0 ≤ u.maxElevatorDeflection.toInt ∧
    0 ≤ u.maxRudderDeflection.toInt) ⟨fun ⟨a, e, r⟩ => ⟨a, e, r⟩, fun ⟨a, e, r⟩ => ⟨a, e, r⟩⟩

end AutopilotUtility

/-! ## The rescaled stick -/

/-- The rescaled throttle stick, before it is narrowed. -/
theorem bindToRange_throttle (value limit : ℕ) :
    bindToRange value 0 100 0 limit = (value * limit / 100 : ℕ) := by
  simp only [bindToRange, sub_zero, add_zero]
  rw [tdiv_of_nonneg (by positivity)]
  push_cast
  rfl

theorem bindRcThrottle_toNat (u : AutopilotUtility) (stick : UInt8) :
    (u.bindRcThrottle stick).toNat = stick.toNat * u.maxThrottle.toNat / 100 % 256 := by
  have h := uint8_ofInt_toNat (bindToRange stick.toNat 0 100 0 u.maxThrottle.toNat)
  rw [bindToRange_throttle] at h
  rw [AutopilotUtility.bindRcThrottle, bindToRange_throttle]
  exact_mod_cast h

/-- The rescaled deflection stick, before it is narrowed: the limit scaled by the distance of the
stick from its lower end, less the limit. -/
theorem bindToRange_deflection (value limit : ℤ) :
    bindToRange value (-100) 100 (-limit) limit =
      ((value + 100) * limit).tdiv 100 - limit := by
  have h₁ : (value - -100) * (limit - -limit) = 2 * ((value + 100) * limit) := by ring
  have h₂ : (100 : ℤ) - -100 = 2 * 100 := by norm_num
  rw [bindToRange, h₁, h₂, Int.mul_tdiv_mul_of_pos _ _ (by norm_num), sub_eq_add_neg]

/-- With a limit that is not negative, the bound stick is the narrowed rescale of the two
numbers. -/
theorem bindRcDeflection_of_nonneg {limit : Int8} (h : 0 ≤ limit.toInt) (value : Int8) :
    bindRcDeflection limit value =
      Int8.ofInt (((value.toInt + 100) * limit.toInt).tdiv 100 - limit.toInt) := by
  have hl := int8_toInt_bounds limit
  rw [bindRcDeflection, int8_ofInt_of_mem (by omega) (by omega), bindToRange_deflection]

end RcPlane
