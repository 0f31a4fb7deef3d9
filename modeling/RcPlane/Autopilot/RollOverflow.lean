import RcPlane.Autopilot.RollController
import RcPlane.Foundation.DoubleArithmetic

/-!
# The roll controller over doubles

The roll controller divides by `2 * tau + 0.04` and by `ki` on every step, and nothing validates
the configuration. Over the doubles it computes with, a step stores finite errors exactly when
neither divisor is zero and no operation overflows; whatever is not finite ends up in the integral,
which never recovers.

## Main definitions

* `RollDefined`: the divisors of a step are not zero, and what it stores and returns is finite
* `GainsInRange`: the divisors are not zero, and the quotients by them do not overflow
* `StepInRange`: no operation of a step overflows
* `RunDefined`: every step of a run is defined

## Main results

* `rollDefined_iff`: one step
* `runDefined_iff`: all steps of a run are defined exactly when no operation overflows
-/

namespace RcPlane

open Foundation Foundation.Binary64

/-- Doubles. The conversion to `int8_t` truncates. -/
instance : Double Float where
  intCast := Float.ofInt
  decLT := inferInstance
  toInt8? x := if -129 < x ∧ x < 128 then some x.toModel.toInt8 else none

/-! ## The conditions -/

section Conditions

variable (u : AutopilotUtility) (c : StabilizeConfig Float) (m : StabilizeMemory Float)
  (rollAngle : Float)

/-- The divisor of the derivative's filter. -/
def tauDivisor : Float := ((2 : ℤ) : Float) * c.tau + timestamp

/-- The step's divisors are numbers other than zero, what it stores and the value it casts to
`int8_t` are finite, and without integral gain that value is the clamped proportional and
derivative law. -/
structure RollDefined (call : AngleCall Float) : Prop where
  tauDivisor : value (tauDivisor c) ≠ 0
  kiDivisor : value c.ki ≠ 0
  integral : (computeRollToAileronDeflection u c m call.angle
    call.outOfRange).1.rollIntegralError.isFinite = true
  derivative : (computeRollToAileronDeflection u c m call.angle
    call.outOfRange).1.rollDerivativeError.isFinite = true
  output : (rollOutput u c m call.angle).isFinite = true
  withoutIntegral : value c.ki = 0 → rollOutput u c m call.angle =
    u.bindPidAileronDeflection
      (c.kp * rollError call.angle + c.kd * rollDerivative c m call.angle)

/-- The errors that the roll controller keeps are finite. -/
structure FiniteErrors : Prop where
  prevRollError : m.prevRollError.isFinite = true
  rollDerivativeError : m.rollDerivativeError.isFinite = true
  rollIntegralError : m.rollIntegralError.isFinite = true

/-- The divisors are numbers other than zero, the quotients by them do not overflow, and the other
gains are finite, as all numbers of a JSON file are. -/
structure GainsInRange : Prop where
  kp : c.kp.isFinite = true
  kd : c.kd.isFinite = true
  kiDivisor : value c.ki ≠ 0
  tauDivisor : value (tauDivisor c) ≠ 0
  feedback : InRange (value (timestamp : Float) / value c.ki)
  pole : InRange (value (((2 : ℤ) : Float) * c.tau - timestamp) / value (RcPlane.tauDivisor c))
  derivative : InRange (value ((2 : ℤ) : Float) / value (RcPlane.tauDivisor c))

/-- The angle is a number, and no operation of the step overflows: the exact results of its sums,
differences and products are below the threshold. -/
structure StepInRange : Prop where
  angle : rollAngle.isFinite = true
  errorSum : InRange (value (rollError rollAngle) + value m.prevRollError)
  trapezoid : InRange (value ((timestamp : Float) / ((2 : ℤ) : Float)) *
    value (rollError rollAngle + m.prevRollError))
  integral : InRange (value m.rollIntegralError +
    value (timestamp / ((2 : ℤ) : Float) * (rollError rollAngle + m.prevRollError)))
  decay : InRange (value ((((2 : ℤ) : Float) * c.tau - timestamp) / tauDivisor c) *
    value m.rollDerivativeError)
  errorDifference : InRange (value (rollError rollAngle) - value m.prevRollError)
  difference : InRange (value (((2 : ℤ) : Float) / tauDivisor c) *
    value (rollError rollAngle - m.prevRollError))
  derivative : InRange
    (value ((((2 : ℤ) : Float) * c.tau - timestamp) / tauDivisor c * m.rollDerivativeError) +
      value (((2 : ℤ) : Float) / tauDivisor c * (rollError rollAngle - m.prevRollError)))
  proportionalTerm : InRange (value c.kp * value (rollError rollAngle))
  integralTerm : InRange (value c.ki * value (rollIntegral m rollAngle))
  derivativeTerm : InRange (value c.kd * value (rollDerivative c m rollAngle))
  twoTerms : InRange (value (c.kp * rollError rollAngle) +
    value (c.ki * rollIntegral m rollAngle))
  allTerms : InRange (value (c.kp * rollError rollAngle + c.ki * rollIntegral m rollAngle) +
    value (c.kd * rollDerivative c m rollAngle))
  feedback : InRange (value (timestamp / c.ki) *
    value (rollOutput u c m rollAngle - rollUnsaturatedOutput c m rollAngle))
  windup : InRange (value (rollIntegral m rollAngle) +
    value (timestamp / c.ki * (rollOutput u c m rollAngle - rollUnsaturatedOutput c m rollAngle)))

end Conditions

/-- Every step of a run of the autopilot is defined. -/
def RunDefined (promote : FloatPattern → Float) (u : AutopilotUtility)
    (c : StabilizeConfig Float) (calls : List (TriggerCall Float)) : Prop :=
  ∀ pre call post, calls = pre ++ call :: post →
    RollDefined u c ((StabilizeAutopilot.automaton promote u c).after pre) (call.roll promote)

/-! ## One step -/

section Step

variable {u : AutopilotUtility} {c : StabilizeConfig Float} {m : StabilizeMemory Float}
  {rollAngle : Float}

/-- A value other than zero is finite. -/
theorem isFinite_of_value_ne_zero {x : Float} (h : value x ≠ 0) : x.isFinite = true := by
  show x.toModel.unpack.isFinite = true
  rw [value] at h
  cases hx : x.toModel.unpack with
  | notANumber => exact absurd (by rw [hx]; rfl) h
  | infinity s => exact absurd (by rw [hx]; rfl) h
  | zero s => rfl
  | finite s m e hm => rfl

theorem isFinite_timestamp : (timestamp : Float).isFinite = true := by decide +kernel

theorem isFinite_halfTimestamp :
    ((timestamp : Float) / ((2 : ℤ) : Float)).isFinite = true := by decide +kernel

/-- The error is as large as the angle. -/
theorem isFinite_rollError : (rollError rollAngle).isFinite = true ↔ rollAngle.isFinite = true := by
  have hzero : (0 : Float).isFinite = true := by decide +kernel
  have hvalue : value (0 : Float) = 0 := by decide +kernel
  have hrange : InRange (value (0 : Float) - value rollAngle) := by
    rw [hvalue, zero_sub, InRange, abs_neg]
    exact inRange_value rollAngle
  rw [rollError, isFinite_sub]
  exact ⟨fun h => h.2.1, fun h => ⟨hzero, h, hrange⟩⟩

/-- The limits of the aileron are small. -/
theorem limit_small {n : ℤ} (hlow : -128 ≤ n) (hhigh : n ≤ 128) :
    (n : Float).isFinite = true ∧ |value (n : Float)| ≤ 128 := by
  have hlimits : ∀ i : Fin 257, (Float.ofInt ((i.val : ℤ) - 128)).isFinite = true ∧
      |value (Float.ofInt ((i.val : ℤ) - 128))| ≤ 128 := by decide +kernel
  have h := hlimits ⟨(n + 128).toNat, by omega⟩
  have hn : ((n + 128).toNat : ℤ) - 128 = n := by omega
  rwa [hn] at h

/-- The clamped output is the output or small. -/
theorem bindPidAileronDeflection_eq_or (u : AutopilotUtility) (x : Float) :
    u.bindPidAileronDeflection x = x ∨ (u.bindPidAileronDeflection x).isFinite = true ∧
      |value (u.bindPidAileronDeflection x)| ≤ 128 := by
  have hlow : -128 ≤ u.maxAileronDeflection.toInt := Int8.le_toInt _
  have hhigh : u.maxAileronDeflection.toInt ≤ 127 := Int8.toInt_le _
  unfold AutopilotUtility.bindPidAileronDeflection
  split_ifs
  · exact Or.inr (limit_small (by omega) (by omega))
  · exact Or.inr (limit_small (by omega) (by omega))
  · exact Or.inl rfl

/-- The clamped output is finite if the output is: the limits are. -/
theorem isFinite_bindPidAileronDeflection {x : Float} (h : x.isFinite = true) :
    (u.bindPidAileronDeflection x).isFinite = true := by
  obtain heq | hsmall := bindPidAileronDeflection_eq_or u x
  · rw [heq]
    exact h
  · exact hsmall.1

/-- A sum of a finite value and a small one does not overflow. -/
theorem inRange_sub_of_small (x : Float) {q : ℚ} (hq : |q| ≤ 128) : InRange (q - value x) := by
  have hroom : 128 + (2 ^ 53 - 1 : ℕ) * (2 : ℚ) ^ (971 : ℤ) < overflow := by decide +kernel
  calc |q - value x| ≤ |q| + |value x| := abs_sub _ _
    _ ≤ 128 + (2 ^ 53 - 1 : ℕ) * (2 : ℚ) ^ (971 : ℤ) := add_le_add hq (abs_value_le x)
    _ < overflow := hroom

/-- What the clamp cuts off does not overflow. -/
theorem isFinite_excess {x : Float} (h : x.isFinite = true) :
    (u.bindPidAileronDeflection x - x).isFinite = true := by
  refine (isFinite_sub _ _).mpr ⟨isFinite_bindPidAileronDeflection h, h, ?_⟩
  obtain heq | hsmall := bindPidAileronDeflection_eq_or u x
  · rw [heq, sub_self]
    decide +kernel
  · exact inRange_sub_of_small x hsmall.2

/-- The numerator of the filter's pole differs little from the divisor. -/
theorem isFinite_poleNumerator (h : (tauDivisor c).isFinite = true) :
    (((2 : ℤ) : Float) * c.tau - timestamp).isFinite = true := by
  have htau : (((2 : ℤ) : Float) * c.tau).isFinite = true := ((isFinite_add _ _).mp h).1
  refine (isFinite_sub _ _).mpr ⟨htau, isFinite_timestamp, ?_⟩
  have hsmall : |value (timestamp : Float)| ≤ 128 := by decide +kernel
  have h := inRange_sub_of_small (((2 : ℤ) : Float) * c.tau) hsmall
  rwa [InRange, abs_sub_comm] at h

/-- The integral after the trapezoidal update. -/
theorem isFinite_rollIntegral_iff : (rollIntegral m rollAngle).isFinite = true ↔
    m.rollIntegralError.isFinite = true ∧ m.prevRollError.isFinite = true ∧
      rollAngle.isFinite = true ∧
      InRange (value (rollError rollAngle) + value m.prevRollError) ∧
      InRange (value ((timestamp : Float) / ((2 : ℤ) : Float)) *
        value (rollError rollAngle + m.prevRollError)) ∧
      InRange (value m.rollIntegralError +
        value (timestamp / ((2 : ℤ) : Float) * (rollError rollAngle + m.prevRollError))) := by
  rw [rollIntegral, isFinite_add, isFinite_mul, isFinite_add, isFinite_rollError]
  constructor
  · rintro ⟨hintegral, ⟨-, ⟨hangle, hprev, hsum⟩, htrapezoid⟩, hrange⟩
    exact ⟨hintegral, hprev, hangle, hsum, htrapezoid, hrange⟩
  · rintro ⟨hintegral, hprev, hangle, hsum, htrapezoid, hrange⟩
    exact ⟨hintegral, ⟨isFinite_halfTimestamp, ⟨hangle, hprev, hsum⟩, htrapezoid⟩, hrange⟩

/-- The filtered derivative. -/
theorem isFinite_rollDerivative_iff (htau : value (tauDivisor c) ≠ 0) :
    (rollDerivative c m rollAngle).isFinite = true ↔
    m.rollDerivativeError.isFinite = true ∧ m.prevRollError.isFinite = true ∧
      rollAngle.isFinite = true ∧
      InRange (value (((2 : ℤ) : Float) * c.tau - timestamp) / value (tauDivisor c)) ∧
      InRange (value ((2 : ℤ) : Float) / value (tauDivisor c)) ∧
      InRange (value ((((2 : ℤ) : Float) * c.tau - timestamp) / tauDivisor c) *
        value m.rollDerivativeError) ∧
      InRange (value (rollError rollAngle) - value m.prevRollError) ∧
      InRange (value (((2 : ℤ) : Float) / tauDivisor c) *
        value (rollError rollAngle - m.prevRollError)) ∧
      InRange
        (value ((((2 : ℤ) : Float) * c.tau - timestamp) / tauDivisor c * m.rollDerivativeError) +
          value (((2 : ℤ) : Float) / tauDivisor c * (rollError rollAngle - m.prevRollError))) := by
  -- the divisor is not zero, so that both quotients depend on their ranges alone
  have hdivisor := isFinite_of_value_ne_zero htau
  have htwo : ((2 : ℤ) : Float).isFinite = true := (limit_small (by omega) (by omega)).1
  have hpole : ((((2 : ℤ) : Float) * c.tau - timestamp) / tauDivisor c).isFinite = true ↔
      InRange (value (((2 : ℤ) : Float) * c.tau - timestamp) / value (tauDivisor c)) :=
    (isFinite_div hdivisor).trans
      ⟨fun h => h.2.2, fun h => ⟨isFinite_poleNumerator hdivisor, htau, h⟩⟩
  have hgain : (((2 : ℤ) : Float) / tauDivisor c).isFinite = true ↔
      InRange (value ((2 : ℤ) : Float) / value (tauDivisor c)) :=
    (isFinite_div hdivisor).trans ⟨fun h => h.2.2, fun h => ⟨htwo, htau, h⟩⟩
  rw [show rollDerivative c m rollAngle =
      (((2 : ℤ) : Float) * c.tau - timestamp) / tauDivisor c * m.rollDerivativeError +
        ((2 : ℤ) : Float) / tauDivisor c * (rollError rollAngle - m.prevRollError) from rfl,
    isFinite_add, isFinite_mul, isFinite_mul, isFinite_sub, isFinite_rollError, hpole, hgain]
  constructor
  · rintro ⟨⟨hpole, hderivative, hdecay⟩, ⟨hgain, ⟨hangle, hprev, herror⟩, hdifference⟩, hrange⟩
    exact ⟨hderivative, hprev, hangle, hpole, hgain, hdecay, herror, hdifference, hrange⟩
  · rintro ⟨hderivative, hprev, hangle, hpole, hgain, hdecay, herror, hdifference, hrange⟩
    exact ⟨⟨hpole, hderivative, hdecay⟩, ⟨hgain, ⟨hangle, hprev, herror⟩, hdifference⟩, hrange⟩

/-- The output before the clamp. -/
theorem isFinite_rollUnsaturatedOutput_iff : (rollUnsaturatedOutput c m rollAngle).isFinite = true ↔
    c.kp.isFinite = true ∧ c.ki.isFinite = true ∧ c.kd.isFinite = true ∧
      rollAngle.isFinite = true ∧ (rollIntegral m rollAngle).isFinite = true ∧
      (rollDerivative c m rollAngle).isFinite = true ∧
      InRange (value c.kp * value (rollError rollAngle)) ∧
      InRange (value c.ki * value (rollIntegral m rollAngle)) ∧
      InRange (value c.kd * value (rollDerivative c m rollAngle)) ∧
      InRange (value (c.kp * rollError rollAngle) + value (c.ki * rollIntegral m rollAngle)) ∧
      InRange (value (c.kp * rollError rollAngle + c.ki * rollIntegral m rollAngle) +
        value (c.kd * rollDerivative c m rollAngle)) := by
  rw [rollUnsaturatedOutput, isFinite_add, isFinite_add, isFinite_mul, isFinite_mul, isFinite_mul,
    isFinite_rollError]
  constructor
  · rintro ⟨⟨⟨hkp, hangle, hp⟩, ⟨hki, hintegral, hi⟩, htwo⟩, ⟨hkd, hderivative, hd⟩, hall⟩
    exact ⟨hkp, hki, hkd, hangle, hintegral, hderivative, hp, hi, hd, htwo, hall⟩
  · rintro ⟨hkp, hki, hkd, hangle, hintegral, hderivative, hp, hi, hd, htwo, hall⟩
    exact ⟨⟨⟨hkp, hangle, hp⟩, ⟨hki, hintegral, hi⟩, htwo⟩, ⟨hkd, hderivative, hd⟩, hall⟩

/-- The clamp keeps infinities within the limits, but not-a-number and what it was computed from
reach the stored integral. -/
theorem isFinite_storedIntegral_iff (hki : value c.ki ≠ 0) :
    (rollIntegral m rollAngle + timestamp / c.ki *
      (rollOutput u c m rollAngle - rollUnsaturatedOutput c m rollAngle)).isFinite = true ↔
    (rollIntegral m rollAngle).isFinite = true ∧
      (rollUnsaturatedOutput c m rollAngle).isFinite = true ∧
      InRange (value (timestamp : Float) / value c.ki) ∧
      InRange (value (timestamp / c.ki) *
        value (rollOutput u c m rollAngle - rollUnsaturatedOutput c m rollAngle)) ∧
      InRange (value (rollIntegral m rollAngle) + value (timestamp / c.ki *
        (rollOutput u c m rollAngle - rollUnsaturatedOutput c m rollAngle))) := by
  have hgain : ((timestamp : Float) / c.ki).isFinite = true ↔
      InRange (value (timestamp : Float) / value c.ki) :=
    (isFinite_div (isFinite_of_value_ne_zero hki)).trans
      ⟨fun h => h.2.2, fun h => ⟨isFinite_timestamp, hki, h⟩⟩
  have hexcess : (rollOutput u c m rollAngle -
      rollUnsaturatedOutput c m rollAngle).isFinite = true ↔
      (rollUnsaturatedOutput c m rollAngle).isFinite = true :=
    ⟨fun h => ((isFinite_sub _ _).mp h).2.1, isFinite_excess⟩
  rw [isFinite_add, isFinite_mul, hgain, hexcess]
  constructor
  · rintro ⟨hintegral, ⟨hfeedback, houtput, hproduct⟩, hrange⟩
    exact ⟨hintegral, houtput, hfeedback, hproduct, hrange⟩
  · rintro ⟨hintegral, houtput, hfeedback, hproduct, hrange⟩
    exact ⟨hintegral, ⟨hfeedback, houtput, hproduct⟩, hrange⟩

/-- **One step.** A step from finite errors is defined exactly when the divisors are not zero and
no operation overflows; from other errors it never is. -/
theorem rollDefined_iff (call : AngleCall Float) : RollDefined u c m call ↔
    FiniteErrors m ∧ GainsInRange c ∧ StepInRange u c m call.angle := by
  constructor
  · intro h
    obtain ⟨hintegral, hunsaturated, hfeedback, hproduct, hwindup⟩ :=
      (isFinite_storedIntegral_iff h.kiDivisor).mp h.integral
    obtain ⟨herror, hprev, hangle, hsum, htrapezoid, hrange⟩ :=
      isFinite_rollIntegral_iff.mp hintegral
    obtain ⟨hderivative, -, -, hpole, hgain, hdecay, hdiff, hdifference, hfilter⟩ :=
      (isFinite_rollDerivative_iff h.tauDivisor).mp h.derivative
    obtain ⟨hkp, -, hkd, -, -, -, hp, hi, hd, htwo, hall⟩ :=
      isFinite_rollUnsaturatedOutput_iff.mp hunsaturated
    exact ⟨⟨hprev, hderivative, herror⟩,
      ⟨hkp, hkd, h.kiDivisor, h.tauDivisor, hfeedback, hpole, hgain⟩,
      ⟨hangle, hsum, htrapezoid, hrange, hdecay, hdiff, hdifference, hfilter, hp, hi, hd, htwo,
        hall, hproduct, hwindup⟩⟩
  · rintro ⟨hm, hc, hs⟩
    -- the other direction follows the order of the computation
    have hintegral : (rollIntegral m call.angle).isFinite = true :=
      isFinite_rollIntegral_iff.mpr ⟨hm.rollIntegralError, hm.prevRollError, hs.angle, hs.errorSum,
        hs.trapezoid, hs.integral⟩
    have hderivative : (rollDerivative c m call.angle).isFinite = true :=
      (isFinite_rollDerivative_iff hc.tauDivisor).mpr ⟨hm.rollDerivativeError, hm.prevRollError,
        hs.angle, hc.pole, hc.derivative, hs.decay, hs.errorDifference, hs.difference,
        hs.derivative⟩
    have hunsaturated : (rollUnsaturatedOutput c m call.angle).isFinite = true :=
      isFinite_rollUnsaturatedOutput_iff.mpr ⟨hc.kp, isFinite_of_value_ne_zero hc.kiDivisor, hc.kd,
        hs.angle, hintegral, hderivative, hs.proportionalTerm, hs.integralTerm, hs.derivativeTerm,
        hs.twoTerms, hs.allTerms⟩
    refine ⟨hc.tauDivisor, hc.kiDivisor, ?_, hderivative,
      isFinite_bindPidAileronDeflection hunsaturated, fun h => absurd h hc.kiDivisor⟩
    exact (isFinite_storedIntegral_iff hc.kiDivisor).mpr
      ⟨hintegral, hunsaturated, hc.feedback, hs.feedback, hs.windup⟩

end Step

/-! ## Runs -/

section Runs

variable {promote : FloatPattern → Float} {u : AutopilotUtility} {c : StabilizeConfig Float}

/-- At construction the errors are zero. -/
theorem finiteErrors_initial : FiniteErrors StabilizeMemory.initial := by
  have hzero : (0 : Float).isFinite = true := by decide +kernel
  exact ⟨hzero, hzero, hzero⟩

/-- A defined step leaves finite errors. -/
theorem FiniteErrors.step {m : StabilizeMemory Float} {call : TriggerCall Float}
    (h : RollDefined u c m (call.roll promote)) :
    FiniteErrors (StabilizeAutopilot.trigger promote u c m call).1 := by
  have hangle := ((rollDefined_iff _).mp h).2.2.angle
  exact ⟨isFinite_rollError.mpr hangle, h.derivative, h.integral⟩

/-- **Runs.** All steps of a run are defined exactly when the run is empty, or neither divisor is
zero, all roll angles are numbers and no operation overflows. -/
theorem runDefined_iff (calls : List (TriggerCall Float)) : RunDefined promote u c calls ↔
    calls = [] ∨ GainsInRange c ∧ ∀ pre call post, calls = pre ++ call :: post →
      StepInRange u c ((StabilizeAutopilot.automaton promote u c).after pre)
        (promote call.imuPacket.gyroX) := by
  constructor
  · intro h
    -- the gains are read off the first call
    have hstep := fun pre call post hsplit => (rollDefined_iff _).mp (h pre call post hsplit)
    cases calls with
    | nil => exact Or.inl rfl
    | cons first rest =>
      exact Or.inr ⟨(hstep [] first rest rfl).2.1,
        fun pre call post hsplit => (hstep pre call post hsplit).2.2⟩
  · rintro (rfl | ⟨hc, hsteps⟩) pre call post hsplit
    · simp at hsplit
    · -- the errors stay finite up to the call
      have hfinite : ∀ post', calls = pre ++ post' →
          FiniteErrors ((StabilizeAutopilot.automaton promote u c).after pre) := by
        clear hsplit
        induction pre using List.reverseRecOn with
        | nil => exact fun _ _ => finiteErrors_initial
        | append_singleton pre last ih =>
          intro post' hsplit
          have hsplit' : calls = pre ++ last :: post' := by simp [hsplit]
          rw [Automaton.after_snoc]
          apply FiniteErrors.step
          exact (rollDefined_iff _).mpr ⟨ih _ hsplit', hc, hsteps pre last post' hsplit'⟩
      exact (rollDefined_iff _).mpr ⟨hfinite _ hsplit, hc, hsteps pre call post hsplit⟩

/-- The gains of the shipped configuration. -/
def shippedGains : StabilizeConfig Float := ⟨35, 0.5, 0.05, 0.08, 0.05, 4⟩

/-- A call in level flight. -/
def levelCall : TriggerCall Float := ⟨fun _ _ => 0, {}, {}⟩

/-- What a step stores tells that it was not defined. -/
theorem not_runDefined_of_integral (h : (computeRollToAileronDeflection u c StabilizeMemory.initial
    (promote levelCall.imuPacket.gyroX) levelCall.outOfRange).1.rollIntegralError.isFinite = false) :
    ¬ RunDefined promote u c [levelCall] :=
  fun hdefined => Bool.false_ne_true (h.symm.trans (hdefined [] levelCall [] rfl).integral)

/-- Without integral gain, ordinary tuning of a proportional and derivative controller, the first
step divides by zero and what it stores in the integral is not a number. So it is with a gain whose
quotient overflows, and with the one time constant that makes the other divisor zero. -/
theorem roll_undefined_without_integral :
    ¬ RunDefined (fun _ => 0) AutopilotConfig.shipped.utility { shippedGains with ki := 0 }
        [levelCall] ∧
      ¬ RunDefined (fun _ => 0) AutopilotConfig.shipped.utility { shippedGains with ki := 1e-310 }
        [levelCall] ∧
      ¬ RunDefined (fun _ => 0) AutopilotConfig.shipped.utility { shippedGains with tau := -0.02 }
        [levelCall] := by
  refine ⟨?_, ?_, ?_⟩
  · exact not_runDefined_of_integral (by decide +kernel)
  · exact not_runDefined_of_integral (by decide +kernel)
  · exact not_runDefined_of_integral (by decide +kernel)

end Runs

end RcPlane
