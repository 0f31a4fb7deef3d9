import RcPlane.Foundation.Extended
import RcPlane.Autopilot.RollController

/-!
# The roll controller with infinities and not-a-number

The steps of the roll controller are the same definitions at the arithmetic that has infinities and
not-a-number. With divisors that are not zero, its runs at angles that are numbers are those over
the rationals.

## Main definitions

* `StabilizeConfig.num`, `StabilizeMemory.num`: rationals as values of the larger arithmetic

## Main results

* `computeRollToAileronDeflection_num`: one step
* `rollController_num`: with divisors that are not zero, a run is the run over the rationals
-/

namespace RcPlane

open Foundation Foundation.Extended

/-- Rationals with infinities and not-a-number; only numbers convert to `int8_t`. -/
instance : Double (Extended ℚ) where
  ofScientific m s e := num (OfScientific.ofScientific m s e)
  decLT := Extended.decidableLT
  toInt8?
    | num q => Double.toInt8? q
    | _ => none

/-- A configuration of rationals. -/
def StabilizeConfig.num (c : StabilizeConfig ℚ) : StabilizeConfig (Extended ℚ) :=
  ⟨.num c.maxAileronDeflection, .num c.kp, .num c.ki, .num c.kd, .num c.tau,
    .num c.maxIntegralError⟩

/-- A memory of rationals. -/
def StabilizeMemory.num (m : StabilizeMemory ℚ) : StabilizeMemory (Extended ℚ) :=
  ⟨.num m.prevRollError, .num m.prevPitchError, .num m.rollDerivativeError,
    .num m.rollIntegralError, .num m.pitchIntegralError⟩

/-! ## Steps on numbers -/

section Num

variable (u : AutopilotUtility) (c : StabilizeConfig ℚ) (m : StabilizeMemory ℚ) (r : ℚ)

theorem rollError_num : rollError (Extended.num r) = .num (rollError r) := by
  rw [rollError, rollError, zero_eq, num_sub_num]

theorem rollIntegral_num : rollIntegral m.num (.num r) = .num (rollIntegral m r) := by
  have hdiv : (timestamp : Extended ℚ) / ((2 : ℤ) : Extended ℚ) =
      .num (timestamp / ((2 : ℤ) : ℚ)) := num_div_num (by norm_num) _
  rw [rollIntegral, rollError_num, hdiv]
  rfl

/-- The divisor of the derivative's filter. -/
theorem rollDivisor_num : ((2 : ℤ) : Extended ℚ) * c.num.tau + timestamp =
    .num (((2 : ℤ) : ℚ) * c.tau + timestamp) := rfl

variable {c}

theorem rollDerivative_num (htau : 2 * c.tau + 0.04 ≠ 0) :
    rollDerivative c.num m.num (.num r) = .num (rollDerivative c m r) := by
  have hdivisor : ((2 : ℤ) : ℚ) * c.tau + timestamp ≠ 0 := by simpa [timestamp] using htau
  rw [rollDerivative, rollError_num, rollDivisor_num]
  -- the two quotients have the one divisor
  have hpole : (((2 : ℤ) : Extended ℚ) * c.num.tau - timestamp) /
      .num (((2 : ℤ) : ℚ) * c.tau + timestamp) =
      .num ((((2 : ℤ) : ℚ) * c.tau - timestamp) / (((2 : ℤ) : ℚ) * c.tau + timestamp)) := by
    rw [← num_div_num hdivisor, ← num_sub_num]
    rfl
  have hgain : ((2 : ℤ) : Extended ℚ) / .num (((2 : ℤ) : ℚ) * c.tau + timestamp) =
      .num (((2 : ℤ) : ℚ) / (((2 : ℤ) : ℚ) * c.tau + timestamp)) := num_div_num hdivisor _
  have hdiff : Extended.num (rollError r) - m.num.prevRollError =
      .num (rollError r - m.prevRollError) := num_sub_num _ _
  rw [hpole, hgain, hdiff]
  rfl

theorem rollUnsaturatedOutput_num (htau : 2 * c.tau + 0.04 ≠ 0) :
    rollUnsaturatedOutput c.num m.num (.num r) = .num (rollUnsaturatedOutput c m r) := by
  rw [rollUnsaturatedOutput, rollError_num, rollIntegral_num, rollDerivative_num m r htau]
  rfl

theorem bindPidAileronDeflection_num (value : ℚ) :
    u.bindPidAileronDeflection (Extended.num value) = .num (u.bindPidAileronDeflection value) := by
  unfold AutopilotUtility.bindPidAileronDeflection
  simp only [intCast_eq, num_lt_num]
  split_ifs <;> rfl

theorem rollOutput_num (htau : 2 * c.tau + 0.04 ≠ 0) :
    rollOutput u c.num m.num (.num r) = .num (rollOutput u c m r) := by
  rw [rollOutput, rollUnsaturatedOutput_num m r htau, bindPidAileronDeflection_num]
  rfl

/-- **One step on numbers.** With divisors that are not zero, the step of the larger arithmetic is
the step over the rationals. -/
theorem computeRollToAileronDeflection_num (hki : c.ki ≠ 0) (htau : 2 * c.tau + 0.04 ≠ 0)
    (outOfRange : Conversion → Extended ℚ → Int8) :
    computeRollToAileronDeflection u c.num m.num (.num r) outOfRange =
      let (m', deflection) :=
        computeRollToAileronDeflection u c m r fun place q => outOfRange place (.num q)
      (m'.num, deflection) := by
  have hgain : (timestamp : Extended ℚ) / c.num.ki = .num (timestamp / c.ki) := num_div_num hki _
  have hexcess : Extended.num (rollOutput u c m r) - .num (rollUnsaturatedOutput c m r) =
      .num (rollOutput u c m r - rollUnsaturatedOutput c m r) := num_sub_num _ _
  rw [computeRollToAileronDeflection, rollDerivative_num m r htau, rollError_num,
    rollIntegral_num, rollUnsaturatedOutput_num m r htau, rollOutput_num u m r htau, hgain, hexcess]
  rfl

end Num

/-! ## Runs -/

section Defined

variable {u : AutopilotUtility} {c : StabilizeConfig ℚ}

/-- A call whose angle is a number, as a call of the controller over the rationals. -/
def AngleCall.rational (call : AngleCall (Extended ℚ)) : AngleCall ℚ :=
  ⟨fun place q => call.outOfRange place (.num q), call.angle.value⟩

/-- **Runs on numbers.** With divisors that are not zero, a run of the larger arithmetic at angles
that are numbers is the run over the rationals. -/
theorem rollController_num (hki : c.ki ≠ 0) (htau : 2 * c.tau + 0.04 ≠ 0)
    {calls : List (AngleCall (Extended ℚ))} (hcalls : ∀ call ∈ calls, call.angle.IsNum) :
    (rollController u c.num).after calls =
        ((rollController u c).after (calls.map (·.rational))).num ∧
      (rollController u c.num).outputs calls =
        (rollController u c).outputs (calls.map (·.rational)) := by
  have hstep : ∀ m m' (call : AngleCall (Extended ℚ)), call.angle.IsNum → m = m'.num →
      ((rollController u c.num).step m call).1 =
          ((rollController u c).step m' call.rational).1.num ∧
        ((rollController u c.num).step m call).2 =
          ((rollController u c).step m' call.rational).2 := by
    rintro _ m' call hcall rfl
    have hangle : .num call.rational.angle = call.angle := num_value hcall
    have h := computeRollToAileronDeflection_num u m' call.rational.angle hki htau call.outOfRange
    rw [hangle] at h
    exact ⟨congrArg Prod.fst h, congrArg Prod.snd h⟩
  have h := Automaton.after_outputs_map (M := rollController u c.num) (N := rollController u c)
    (R := fun m m' => m = m'.num) (g := (·.rational)) (p := id) (q := id) rfl hstep hcalls
  rwa [List.map_id, List.map_id] at h

end Defined

end RcPlane
