import RcPlane.Foundation.Saturation
import RcPlane.Autopilot.Envelope

/-!
# The roll controller

The runs of `computeRollToAileronDeflection` over exact rationals. Its integral is updated twice
a step, by the trapezoid of the errors and by the part of the output that the aileron limit cuts
off; both stay bounded, a lasting error drives the aileron to its limit, and while nothing is cut
off the output is the documented PID.

## Main definitions

* `AngleCall D`: what a call of one controller is given
* `rollController`: the runs of the roll controller
* `RollGains`: the gains of a stabilizing configuration
* `derivativeLimit`, `integralLimit`: the bounds of the memory
* `documentedPid`: the PID of the documentation, over the errors of a run

## Main results

* `roll_errors_bounded`: the integral and the derivative are bounded over all runs
* `roll_full_authority`: a constant angle drives the aileron to its limit and keeps it there
* `rollDeflection_eq_documentedPid`: an output that is never cut off is the documented PID
-/

namespace RcPlane

open Foundation

/-! ## Runs -/

/-- What a call of one controller is given: the angle, and the values that the platform's
out-of-range conversions yield during the call. -/
structure AngleCall (D : Type) where
  outOfRange : Conversion → D → Int8
  angle : D

section Runs

variable {D : Type} [Double D] (promote : FloatPattern → D) (u : AutopilotUtility)
  (c : StabilizeConfig D)

/-- The runs of `computeRollToAileronDeflection` from construction. -/
def rollController : Automaton (StabilizeMemory D) (AngleCall D) Int8 where
  start := StabilizeMemory.initial
  step m call := computeRollToAileronDeflection u c m call.angle call.outOfRange

/-- The part of a call of the autopilot that its roll controller reads. -/
def TriggerCall.roll (call : TriggerCall D) : AngleCall D :=
  ⟨call.outOfRange, promote call.imuPacket.gyroX⟩

/-- Two memories agree on what the roll controller keeps. -/
structure SameRoll (m m' : StabilizeMemory D) : Prop where
  prevRollError : m.prevRollError = m'.prevRollError
  rollDerivativeError : m.rollDerivativeError = m'.rollDerivativeError
  rollIntegralError : m.rollIntegralError = m'.rollIntegralError

/-- The roll controller reads and writes its own memory only. -/
theorem SameRoll.step {m m' : StabilizeMemory D} (h : SameRoll m m') (call : TriggerCall D) :
    SameRoll (StabilizeAutopilot.trigger promote u c m call).1
        ((rollController u c).step m' (call.roll promote)).1 ∧
      (StabilizeAutopilot.trigger promote u c m call).2.aileronDeflection =
        ((rollController u c).step m' (call.roll promote)).2 := by
  obtain ⟨prevRollError, prevPitchError, derivative, integral, pitchIntegral⟩ := m
  obtain ⟨prevRollError', prevPitchError', derivative', integral', pitchIntegral'⟩ := m'
  obtain ⟨rfl, rfl, rfl⟩ := h
  exact ⟨⟨rfl, rfl, rfl⟩, rfl⟩

/-- The autopilot's aileron deflections are the answers of its roll controller. -/
theorem trigger_roll (calls : List (TriggerCall D)) :
    SameRoll ((StabilizeAutopilot.automaton promote u c).after calls)
        ((rollController u c).after (calls.map (·.roll promote))) ∧
      ((StabilizeAutopilot.automaton promote u c).outputs calls).map (·.aileronDeflection) =
        (rollController u c).outputs (calls.map (·.roll promote)) := by
  have h := Automaton.after_outputs_map (M := StabilizeAutopilot.automaton promote u c)
    (N := rollController u c) (R := SameRoll) (A := fun _ => True)
    (g := (·.roll promote)) (p := (·.aileronDeflection)) (q := id) ⟨rfl, rfl, rfl⟩
    (fun _ _ call _ hm => SameRoll.step promote u c hm call)
    (fun call (_ : call ∈ calls) => trivial)
  rwa [List.map_id] at h

end Runs

/-! ## One step over the rationals -/

section Step

variable (u : AutopilotUtility) (c : StabilizeConfig ℚ) (m : StabilizeMemory ℚ) (rollAngle : ℚ)

theorem timestamp_pos : (0 : ℚ) < timestamp := by norm_num [timestamp]

theorem timestamp_le_one : (timestamp : ℚ) ≤ 1 := by norm_num [timestamp]

theorem rollError_eq : rollError rollAngle = -rollAngle := zero_sub _

/-- The pole of the derivative's filter. -/
def rollPole : ℚ := (2 * c.tau - timestamp) / (2 * c.tau + timestamp)

/-- The gain of the derivative's filter. -/
def rollGain : ℚ := 2 / (2 * c.tau + timestamp)

theorem rollDerivative_eq : rollDerivative c m rollAngle =
    rollPole c * m.rollDerivativeError + rollGain c * (-rollAngle - m.prevRollError) := by
  rw [rollDerivative, rollError_eq, rollPole, rollGain, Int.cast_ofNat]

theorem rollIntegral_eq : rollIntegral m rollAngle =
    m.rollIntegralError + timestamp / 2 * (-rollAngle + m.prevRollError) := by
  rw [rollIntegral, rollError_eq, Int.cast_ofNat]

theorem rollUnsaturatedOutput_eq : rollUnsaturatedOutput c m rollAngle =
    c.kp * -rollAngle + c.ki * rollIntegral m rollAngle + c.kd * rollDerivative c m rollAngle := by
  rw [rollUnsaturatedOutput, rollError_eq]

variable {u}

theorem bindPidAileronDeflection_eq_clamp (hM : 0 ≤ u.maxAileronDeflection.toInt) (value : ℚ) :
    u.bindPidAileronDeflection value = clamp (u.maxAileronDeflection.toInt : ℚ) value := by
  have hM' : (0 : ℚ) ≤ u.maxAileronDeflection.toInt := by exact_mod_cast hM
  unfold AutopilotUtility.bindPidAileronDeflection
  split_ifs with h₁ h₂
  · rw [clamp_of_le hM' h₁.le]
  · push_cast at h₂ ⊢
    rw [clamp_of_le_neg hM' h₂.le]
  · push_cast at h₂
    rw [clamp_of_abs_le (abs_le.mpr ⟨not_lt.mp h₂, not_lt.mp h₁⟩)]

/-- The deflection is the clamped output, truncated: it is never out of the range of `int8_t`. -/
theorem roll_deflection_eq (hM : 0 ≤ u.maxAileronDeflection.toInt)
    (outOfRange : Conversion → ℚ → Int8) :
    (computeRollToAileronDeflection u c m rollAngle outOfRange).2.toInt =
      truncate
        (clamp (u.maxAileronDeflection.toInt : ℚ) (rollUnsaturatedOutput c m rollAngle)) := by
  obtain ⟨h₁, h₂⟩ := rollOutput_mem (c := c) hM m rollAngle
  rw [computeRollToAileronDeflection, narrow_of_mem h₁ h₂, rollOutput,
    bindPidAileronDeflection_eq_clamp hM]

/-- What the integral keeps of a step, in units of the output. -/
theorem roll_integral_scaled (hM : 0 ≤ u.maxAileronDeflection.toInt) (hki : c.ki ≠ 0)
    (outOfRange : Conversion → ℚ → Int8) :
    c.ki * (computeRollToAileronDeflection u c m rollAngle outOfRange).1.rollIntegralError =
      c.ki * rollIntegral m rollAngle +
        timestamp *
          (clamp (u.maxAileronDeflection.toInt : ℚ) (rollUnsaturatedOutput c m rollAngle)
            - rollUnsaturatedOutput c m rollAngle) := by
  rw [← bindPidAileronDeflection_eq_clamp hM]
  simp only [computeRollToAileronDeflection, rollOutput]
  field_simp

end Step

/-! ## Boundedness -/

/-- The gains of a stabilizing configuration. -/
structure RollGains (c : StabilizeConfig ℚ) : Prop where
  kp : 0 ≤ c.kp
  kd : 0 ≤ c.kd
  ki : 0 < c.ki
  tau : 0 < c.tau

/-- No angle of the calls is past `E`. -/
def AnglesWithin (E : ℚ) (calls : List (AngleCall ℚ)) : Prop :=
  ∀ call ∈ calls, |call.angle| ≤ E

/-- The bound of the filtered derivative. -/
def derivativeLimit (c : StabilizeConfig ℚ) (E : ℚ) : ℚ := max (2 * E / timestamp) (E / c.tau)

/-- The bound of the integral, in units of the output. -/
def integralLimit (u : AutopilotUtility) (c : StabilizeConfig ℚ) (E : ℚ) : ℚ :=
  u.maxAileronDeflection.toInt + (c.kp * E + c.kd * derivativeLimit c E) + c.ki * E

/-- The memory of the roll controller is within its bounds. -/
structure RollBounded (u : AutopilotUtility) (c : StabilizeConfig ℚ) (E : ℚ)
    (m : StabilizeMemory ℚ) : Prop where
  prevRollError : |m.prevRollError| ≤ E
  derivative : |m.rollDerivativeError| ≤ derivativeLimit c E
  integral : |c.ki * m.rollIntegralError| ≤ integralLimit u c E

section Bounded

variable {u : AutopilotUtility} {c : StabilizeConfig ℚ} {E : ℚ}

theorem derivativeLimit_nonneg (hc : RollGains c) (hE : 0 ≤ E) : 0 ≤ derivativeLimit c E :=
  le_max_of_le_right (div_nonneg hE hc.tau.le)

theorem rollBounded_initial (hc : RollGains c) (hM : 0 ≤ u.maxAileronDeflection.toInt)
    (hE : 0 ≤ E) : RollBounded u c E StabilizeMemory.initial := by
  have hM' : (0 : ℚ) ≤ u.maxAileronDeflection.toInt := by exact_mod_cast hM
  have hd := derivativeLimit_nonneg hc hE
  have h₁ : 0 ≤ c.kp * E := mul_nonneg hc.kp hE
  have h₂ : 0 ≤ c.kd * derivativeLimit c E := mul_nonneg hc.kd hd
  have h₃ : 0 ≤ c.ki * E := mul_nonneg hc.ki.le hE
  refine ⟨?_, ?_, ?_⟩
  · exact (abs_zero (α := ℚ)).trans_le hE
  · exact (abs_zero (α := ℚ)).trans_le hd
  · have hzero : c.ki * (StabilizeMemory.initial : StabilizeMemory ℚ).rollIntegralError = 0 :=
      mul_zero c.ki
    rw [hzero, abs_zero, integralLimit]
    linarith

/-- A step at an angle within `E` keeps the derivative within its bound. -/
theorem RollBounded.abs_rollDerivative_le (hc : RollGains c) (hE : 0 ≤ E)
    {m : StabilizeMemory ℚ} (hm : RollBounded u c E m) {r : ℚ} (hr : |r| ≤ E) :
    |rollDerivative c m r| ≤ derivativeLimit c E := by
  have hgain : 0 ≤ rollGain c := by
    have := hc.tau
    have := timestamp_pos
    unfold rollGain
    positivity
  have hdiff : |-r - m.prevRollError| ≤ 2 * E :=
    calc |-r - m.prevRollError| ≤ |-r| + |m.prevRollError| := abs_sub _ _
      _ ≤ 2 * E := by linarith [abs_neg r, hm.prevRollError]
  rw [rollDerivative_eq]
  exact abs_filter_le hm.derivative hdiff hgain
    (pole_mul_bound_le hc.tau timestamp_pos hE)

/-- The trapezoid adds at most one period of the largest error. -/
theorem RollBounded.abs_rollIntegral_le (hc : RollGains c) {m : StabilizeMemory ℚ}
    (hm : RollBounded u c E m) {r : ℚ} (hr : |r| ≤ E) :
    |c.ki * rollIntegral m r| ≤ integralLimit u c E + timestamp * (c.ki * E) := by
  have hsum : |-r + m.prevRollError| ≤ 2 * E :=
    calc |-r + m.prevRollError| ≤ |-r| + |m.prevRollError| := abs_add_le _ _
      _ ≤ 2 * E := by linarith [abs_neg r, hm.prevRollError]
  have hscale : 0 ≤ c.ki * (timestamp / 2) :=
    mul_nonneg hc.ki.le (half_pos timestamp_pos).le
  calc |c.ki * rollIntegral m r|
      = |c.ki * m.rollIntegralError + c.ki * (timestamp / 2) * (-r + m.prevRollError)| := by
        rw [rollIntegral_eq, mul_add, mul_assoc]
    _ ≤ |c.ki * m.rollIntegralError| + |c.ki * (timestamp / 2) * (-r + m.prevRollError)| :=
        abs_add_le _ _
    _ = |c.ki * m.rollIntegralError| + c.ki * (timestamp / 2) * |-r + m.prevRollError| := by
        rw [abs_mul (c.ki * (timestamp / 2)), abs_of_nonneg hscale]
    _ ≤ integralLimit u c E + c.ki * (timestamp / 2) * (2 * E) :=
        add_le_add hm.integral (mul_le_mul_of_nonneg_left hsum hscale)
    _ = integralLimit u c E + timestamp * (c.ki * E) := by ring

theorem RollBounded.step (hc : RollGains c) (hM : 0 ≤ u.maxAileronDeflection.toInt) (hE : 0 ≤ E)
    {m : StabilizeMemory ℚ} (hm : RollBounded u c E m) (call : AngleCall ℚ)
    (hr : |call.angle| ≤ E) : RollBounded u c E ((rollController u c).step m call).1 := by
  have hM' : (0 : ℚ) ≤ u.maxAileronDeflection.toInt := by exact_mod_cast hM
  have hderivative := hm.abs_rollDerivative_le hc hE hr
  refine ⟨?_, hderivative, ?_⟩
  · show |rollError call.angle| ≤ E
    rw [rollError_eq, abs_neg]
    exact hr
  · -- the part of the output that is not the integral
    have hother : |c.kp * -call.angle + c.kd * rollDerivative c m call.angle| ≤
        c.kp * E + c.kd * derivativeLimit c E :=
      calc |c.kp * -call.angle + c.kd * rollDerivative c m call.angle|
          ≤ |c.kp * -call.angle| + |c.kd * rollDerivative c m call.angle| := abs_add_le _ _
        _ = c.kp * |call.angle| + c.kd * |rollDerivative c m call.angle| := by
          rw [abs_mul, abs_mul, abs_neg, abs_of_nonneg hc.kp, abs_of_nonneg hc.kd]
        _ ≤ c.kp * E + c.kd * derivativeLimit c E :=
          add_le_add (mul_le_mul_of_nonneg_left hr hc.kp)
            (mul_le_mul_of_nonneg_left hderivative hc.kd)
    have hsplit : rollUnsaturatedOutput c m call.angle = c.ki * rollIntegral m call.angle +
        (c.kp * -call.angle + c.kd * rollDerivative c m call.angle) := by
      rw [rollUnsaturatedOutput_eq]
      ring
    show |c.ki *
      (computeRollToAileronDeflection u c m call.angle call.outOfRange).1.rollIntegralError| ≤ _
    -- back-calculation takes away what the clamp has cut off
    rw [roll_integral_scaled c m call.angle hM hc.ki.ne', hsplit]
    exact abs_backCalculation_le hM' timestamp_pos.le timestamp_le_one
      (mul_nonneg hc.ki.le hE) hother (hm.abs_rollIntegral_le hc hr)

theorem rollBounded_after (hc : RollGains c) (hM : 0 ≤ u.maxAileronDeflection.toInt)
    (hE : 0 ≤ E) {calls : List (AngleCall ℚ)} (hcalls : AnglesWithin E calls) :
    RollBounded u c E ((rollController u c).after calls) := by
  refine Automaton.after_induction (A := fun call : AngleCall ℚ => |call.angle| ≤ E)
    (rollBounded_initial hc hM hE) ?_ hcalls
  intro m call hr hm
  exact hm.step hc hM hE call hr

/-- **Anti-windup.** There is a bound on the integral and the derivative that depends on the
configuration and the largest angle only, however long the output stays cut off. -/
theorem roll_errors_bounded (hc : RollGains c) (hM : 0 ≤ u.maxAileronDeflection.toInt)
    (hE : 0 ≤ E) :
    (∃ B, ∀ calls, AnglesWithin E calls →
      |((rollController u c).after calls).rollDerivativeError| ≤ B ∧
        |((rollController u c).after calls).rollIntegralError| ≤ B) ∧
    ∀ calls, AnglesWithin E calls →
      |((rollController u c).after calls).rollDerivativeError| ≤
          max (2 * E / timestamp) (E / c.tau) ∧
        |c.ki * ((rollController u c).after calls).rollIntegralError| ≤
          u.maxAileronDeflection.toInt +
            (c.kp * E + c.kd * max (2 * E / timestamp) (E / c.tau)) + c.ki * E := by
  refine ⟨⟨max (derivativeLimit c E) (integralLimit u c E / c.ki), fun calls hcalls => ?_⟩,
    fun calls hcalls => ?_⟩
  · have h := rollBounded_after hc hM hE hcalls
    refine ⟨le_max_of_le_left h.derivative, le_max_of_le_right ?_⟩
    rw [le_div_iff₀ hc.ki, mul_comm]
    calc c.ki * |((rollController u c).after calls).rollIntegralError|
        = |c.ki * ((rollController u c).after calls).rollIntegralError| := by
          rw [abs_mul, abs_of_pos hc.ki]
      _ ≤ integralLimit u c E := h.integral
  · have h := rollBounded_after hc hM hE hcalls
    exact ⟨h.derivative, h.integral⟩

theorem rollGains_shipped : RollGains AutopilotConfig.shipped.stabilize where
  kp := by norm_num [AutopilotConfig.shipped]
  kd := by norm_num [AutopilotConfig.shipped]
  ki := by norm_num [AutopilotConfig.shipped]
  tau := by norm_num [AutopilotConfig.shipped]

/-- The shipped configuration, over all attitudes up to upside down. -/
theorem roll_errors_bounded_shipped :
    ∃ B, ∀ calls, AnglesWithin 180 calls →
      |((rollController AutopilotConfig.shipped.utility
          AutopilotConfig.shipped.stabilize).after calls).rollDerivativeError| ≤ B ∧
        |((rollController AutopilotConfig.shipped.utility
          AutopilotConfig.shipped.stabilize).after calls).rollIntegralError| ≤ B :=
  (roll_errors_bounded rollGains_shipped (by decide) (by norm_num)).1

end Bounded

/-! ## Full authority -/

section Authority

variable {u : AutopilotUtility} {c : StabilizeConfig ℚ}

/-- The memory after `n` more calls at the angle `r`. -/
def rollHeld (u : AutopilotUtility) (c : StabilizeConfig ℚ) (r : ℚ) (m : StabilizeMemory ℚ) :
    ℕ → StabilizeMemory ℚ
  | 0 => m
  | n + 1 => (computeRollToAileronDeflection u c (rollHeld u c r m n) r fun _ _ => 0).1

/-- What the memory becomes does not depend on the out-of-range conversions. -/
theorem afterFrom_of_held (m : StabilizeMemory ℚ) {r : ℚ} {more : List (AngleCall ℚ)}
    (hmore : ∀ call ∈ more, call.angle = r) :
    (rollController u c).afterFrom m more = rollHeld u c r m more.length := by
  induction more using List.reverseRecOn with
  | nil => rfl
  | append_singleton more call ih =>
    have hprefix := ih fun call' h => hmore call' (List.mem_append_left _ h)
    have hcall : call.angle = r := hmore call (by simp)
    rw [Automaton.afterFrom_append, hprefix, List.length_append, List.length_singleton,
      ← hcall]
    rfl

/-- The output before the clamp, `n` calls after the angle settled. -/
def rollHeldOutput (u : AutopilotUtility) (c : StabilizeConfig ℚ) (r : ℚ) (m : StabilizeMemory ℚ)
    (n : ℕ) : ℚ :=
  rollUnsaturatedOutput c (rollHeld u c r m n) r

/-- From the second call on the derivative only decays. -/
theorem rollDerivative_held (m : StabilizeMemory ℚ) (r : ℚ) (n : ℕ) :
    rollDerivative c (rollHeld u c r m n) r = rollPole c ^ n * rollDerivative c m r := by
  induction n with
  | zero => rw [pow_zero, one_mul, rollHeld]
  | succ n ih =>
    -- the error no longer changes, so the filter only multiplies by its pole
    have hprev : (rollHeld u c r m (n + 1)).prevRollError = -r := rollError_eq r
    have hderivative : (rollHeld u c r m (n + 1)).rollDerivativeError =
        rollDerivative c (rollHeld u c r m n) r := rfl
    rw [rollDerivative_eq, hprev, hderivative, ih, sub_self, mul_zero, add_zero, pow_succ]
    ring

/-- One more call adds one period of the error, and what the decaying derivative loses. -/
theorem rollHeldOutput_succ (hM : 0 ≤ u.maxAileronDeflection.toInt) (hki : c.ki ≠ 0)
    (m : StabilizeMemory ℚ) (r : ℚ) (n : ℕ) :
    rollHeldOutput u c r m (n + 1) = rollHeldOutput u c r m n +
      timestamp * (clamp (u.maxAileronDeflection.toInt : ℚ) (rollHeldOutput u c r m n) -
        rollHeldOutput u c r m n) +
      (timestamp * c.ki * -r +
        rollPole c ^ n * (c.kd * ((rollPole c - 1) * rollDerivative c m r))) := by
  -- a call leaves its trapezoid and its feedback in the integral, and the next adds its trapezoid
  have hintegral : c.ki * (rollHeld u c r m (n + 1)).rollIntegralError =
      c.ki * rollIntegral (rollHeld u c r m n) r +
        timestamp * (clamp (u.maxAileronDeflection.toInt : ℚ) (rollHeldOutput u c r m n) -
          rollHeldOutput u c r m n) :=
    roll_integral_scaled c (rollHeld u c r m n) r hM hki fun _ _ => 0
  have hprev : (rollHeld u c r m (n + 1)).prevRollError = -r := rollError_eq r
  have hnext : c.ki * rollIntegral (rollHeld u c r m (n + 1)) r =
      c.ki * (rollHeld u c r m (n + 1)).rollIntegralError + timestamp * c.ki * -r := by
    rw [rollIntegral_eq, hprev]
    ring
  calc rollHeldOutput u c r m (n + 1)
      = c.kp * -r + c.ki * rollIntegral (rollHeld u c r m (n + 1)) r +
          c.kd * (rollPole c ^ (n + 1) * rollDerivative c m r) := by
        rw [rollHeldOutput, rollUnsaturatedOutput_eq, rollDerivative_held]
    _ = c.kp * -r + c.ki * rollIntegral (rollHeld u c r m n) r +
          c.kd * (rollPole c ^ n * rollDerivative c m r) +
        timestamp * (clamp (u.maxAileronDeflection.toInt : ℚ) (rollHeldOutput u c r m n) -
          rollHeldOutput u c r m n) +
        (timestamp * c.ki * -r +
          rollPole c ^ n * (c.kd * ((rollPole c - 1) * rollDerivative c m r))) := by
        rw [hnext, hintegral, pow_succ]
        ring
    _ = _ := by
        rw [← rollDerivative_held, ← rollUnsaturatedOutput_eq, rollHeldOutput]

/-- A constant angle drives the output to the limit on the other side, and there it stays. The
output is mirrored when the angle is positive. -/
theorem eventually_le_rollHeldOutput (hc : RollGains c) (hM : 0 ≤ u.maxAileronDeflection.toInt)
    (m : StabilizeMemory ℚ) {r σ : ℚ} (hσ : σ = 1 ∨ σ = -1) (hr : σ * r < 0) :
    ∃ N, ∀ n, N ≤ n → (u.maxAileronDeflection.toInt : ℚ) ≤ σ * rollHeldOutput u c r m n := by
  have hM' : (0 : ℚ) ≤ u.maxAileronDeflection.toInt := by exact_mod_cast hM
  -- every call drives the output by this much, less what the derivative loses
  have hdrive : 0 < timestamp * c.ki * -(σ * r) :=
    mul_pos (mul_pos timestamp_pos hc.ki) (neg_pos.mpr hr)
  obtain ⟨N, hN⟩ := eventually_abs_pow_mul_le (abs_pole_lt_one hc.tau timestamp_pos)
    (σ * (c.kd * ((rollPole c - 1) * rollDerivative c m r))) (half_pos hdrive)
  refine eventually_le_of_ratchet (u := fun n => σ * rollHeldOutput u c r m n)
    (g := fun n => timestamp * c.ki * -(σ * r) +
      rollPole c ^ n * (σ * (c.kd * ((rollPole c - 1) * rollDerivative c m r))))
    hM' timestamp_pos.le timestamp_le_one (half_pos hdrive) ?_ ⟨N, fun n hn => ?_⟩
  · intro n
    have hodd : clamp (u.maxAileronDeflection.toInt : ℚ) (σ * rollHeldOutput u c r m n) =
        σ * clamp (u.maxAileronDeflection.toInt : ℚ) (rollHeldOutput u c r m n) := by
      rcases hσ with rfl | rfl
      · rw [one_mul, one_mul]
      · rw [neg_one_mul, neg_one_mul, clamp_neg hM']
    show σ * rollHeldOutput u c r m (n + 1) = _
    rw [rollHeldOutput_succ hM hc.ki.ne', hodd]
    ring
  · -- the decaying derivative takes at most half of the drive
    have hsmall := (abs_le.mp (hN n hn)).1
    have hpole : rollPole c = (2 * c.tau - timestamp) / (2 * c.tau + timestamp) := rfl
    rw [← hpole] at hsmall
    linarith

/-- **Full authority of the integral.** From every state reached, a constant angle drives the
deflection to the limit against it within some number of calls, and every later call returns
exactly the limit. -/
theorem roll_full_authority (hc : RollGains c) (hM : 0 ≤ u.maxAileronDeflection.toInt)
    (calls : List (AngleCall ℚ)) {r : ℚ} (hr : r ≠ 0) :
    ∃ N, ∀ more : List (AngleCall ℚ), (∀ call ∈ more, call.angle = r) → N ≤ more.length →
      ∃ deflection, ((rollController u c).outputs (calls ++ more)).getLast? = some deflection ∧
        deflection.toInt =
          if r < 0 then u.maxAileronDeflection.toInt else -u.maxAileronDeflection.toInt := by
  have hM' : (0 : ℚ) ≤ u.maxAileronDeflection.toInt := by exact_mod_cast hM
  obtain ⟨N, hN⟩ : ∃ N, ∀ n, N ≤ n →
      truncate (clamp (u.maxAileronDeflection.toInt : ℚ)
        (rollHeldOutput u c r ((rollController u c).after calls) n)) =
      if r < 0 then u.maxAileronDeflection.toInt else -u.maxAileronDeflection.toInt := by
    -- a negative angle drives the output up, a positive one down
    rcases lt_or_gt_of_ne hr with h | h
    · obtain ⟨N, hN⟩ := eventually_le_rollHeldOutput hc hM
        ((rollController u c).after calls) (r := r) (Or.inl rfl) (by linarith)
      refine ⟨N, fun n hn => ?_⟩
      have hn := hN n hn
      rw [one_mul] at hn
      rw [if_pos h, clamp_of_le hM' hn, truncate_intCast]
    · obtain ⟨N, hN⟩ := eventually_le_rollHeldOutput hc hM
        ((rollController u c).after calls) (r := r) (Or.inr rfl) (by linarith)
      refine ⟨N, fun n hn => ?_⟩
      have hn := hN n hn
      rw [if_neg (not_lt.mpr h.le), clamp_of_le_neg hM' (by linarith), truncate_neg,
        truncate_intCast]
  -- the last of more than `N` calls finds the memory settled by the others
  refine ⟨N + 1, fun more hmore hlength => ?_⟩
  obtain ⟨held, call, rfl⟩ : ∃ held call, more = held ++ [call] := by
    refine ⟨more.dropLast, more.getLast ?_, (List.dropLast_append_getLast _).symm⟩
    rintro rfl
    simp at hlength
  have hcall : call.angle = r := hmore call (by simp)
  have hstate : (rollController u c).after (calls ++ held) =
      rollHeld u c r ((rollController u c).after calls) held.length := by
    rw [← afterFrom_of_held _ fun call' h => hmore call' (List.mem_append_left _ h)]
    exact Automaton.afterFrom_append _ _ calls held
  have hheld : N ≤ held.length := by
    rw [List.length_append, List.length_singleton] at hlength
    omega
  refine ⟨_, by rw [← List.append_assoc, Automaton.outputs_snoc, List.getLast?_concat], ?_⟩
  rw [hstate]
  show (computeRollToAileronDeflection u c _ call.angle call.outOfRange).2.toInt = _
  rw [roll_deflection_eq c _ _ hM, hcall]
  exact hN held.length hheld

/-- The shipped configuration, rolled by one degree, from construction. -/
theorem roll_full_authority_shipped :
    ∃ N, ∀ more : List (AngleCall ℚ), (∀ call ∈ more, call.angle = 1) → N ≤ more.length →
      ∃ deflection, ((rollController AutopilotConfig.shipped.utility
          AutopilotConfig.shipped.stabilize).outputs ([] ++ more)).getLast? = some deflection ∧
        deflection.toInt =
          if (1 : ℚ) < 0 then AutopilotConfig.shipped.utility.maxAileronDeflection.toInt
          else -AutopilotConfig.shipped.utility.maxAileronDeflection.toInt :=
  roll_full_authority rollGains_shipped (by decide) [] one_ne_zero

end Authority

/-! ## The documented PID -/

/-- The error at step `i` of a run; before the first step it is zero. -/
def errorAt (calls : List (AngleCall ℚ)) : ℕ → ℚ
  | 0 => 0
  | i + 1 => -((calls[i]?.map (·.angle)).getD 0)

/-- The documented PID at step `k`: the trapezoidal integral and the filtered derivative of the
errors, weighed by the gains. -/
def documentedPid (c : StabilizeConfig ℚ) (e : ℕ → ℚ) (k : ℕ) : ℚ :=
  c.kp * e k +
    c.ki * ∑ i ∈ Finset.range k, timestamp / 2 * (e (i + 1) + e i) +
    c.kd * ∑ i ∈ Finset.range k,
      rollPole c ^ (k - (i + 1)) * (rollGain c * (e (i + 1) - e i))

/-- No step's output exceeds the aileron limit before the clamp. -/
def NeverSaturated (u : AutopilotUtility) (c : StabilizeConfig ℚ)
    (calls : List (AngleCall ℚ)) : Prop :=
  ∀ pre call post, calls = pre ++ call :: post →
    |rollUnsaturatedOutput c ((rollController u c).after pre) call.angle| ≤
      u.maxAileronDeflection.toInt

section Documented

variable {u : AutopilotUtility} {c : StabilizeConfig ℚ} {calls : List (AngleCall ℚ)}

theorem errorAt_succ {i : ℕ} (hi : i < calls.length) :
    errorAt calls (i + 1) = -calls[i].angle := by
  simp [errorAt, hi]

/-- The output of a step that cuts nothing off feeds nothing back. -/
theorem bindPidAileronDeflection_of_abs_le {value : ℚ}
    (h : |value| ≤ u.maxAileronDeflection.toInt) : u.bindPidAileronDeflection value = value := by
  obtain ⟨h₁, h₂⟩ := abs_le.mp h
  unfold AutopilotUtility.bindPidAileronDeflection
  rw [if_neg (not_lt.mpr h₂), if_neg]
  push_cast
  exact not_lt.mpr h₁

/-- The memory after `k` steps of a run that never saturates. -/
structure DocumentedMemory (c : StabilizeConfig ℚ) (e : ℕ → ℚ) (k : ℕ)
    (m : StabilizeMemory ℚ) : Prop where
  prevRollError : m.prevRollError = e k
  integral : m.rollIntegralError = ∑ i ∈ Finset.range k, timestamp / 2 * (e (i + 1) + e i)
  derivative : m.rollDerivativeError = ∑ i ∈ Finset.range k,
    rollPole c ^ (k - (i + 1)) * (rollGain c * (e (i + 1) - e i))

/-- The state after `k` steps, and the step that follows. -/
theorem after_take_succ {k : ℕ} (hk : k < calls.length) :
    (rollController u c).after (calls.take (k + 1)) =
      (computeRollToAileronDeflection u c ((rollController u c).after (calls.take k))
        calls[k].angle calls[k].outOfRange).1 := by
  rw [List.take_succ_eq_append_getElem hk, Automaton.after_snoc]
  rfl

theorem NeverSaturated.abs_le (h : NeverSaturated u c calls) {k : ℕ} (hk : k < calls.length) :
    |rollUnsaturatedOutput c ((rollController u c).after (calls.take k)) calls[k].angle| ≤
      u.maxAileronDeflection.toInt :=
  h (calls.take k) calls[k] (calls.drop (k + 1)) (by simp)

theorem prevRollError_after_take {k : ℕ} (hk : k ≤ calls.length) :
    ((rollController u c).after (calls.take k)).prevRollError = errorAt calls k := by
  cases k with
  | zero => rfl
  | succ k =>
    rw [after_take_succ hk, errorAt_succ hk]
    exact rollError_eq _

/-- The three memories of a run that never saturates, in closed form. -/
theorem NeverSaturated.documentedMemory (h : NeverSaturated u c calls) {k : ℕ}
    (hk : k ≤ calls.length) :
    DocumentedMemory c (errorAt calls) k ((rollController u c).after (calls.take k)) := by
  refine ⟨prevRollError_after_take hk, ?_, ?_⟩
  · induction k with
    | zero => rw [Finset.range_zero, Finset.sum_empty]; rfl
    | succ k ih =>
      -- with nothing cut off, the integral grows by the trapezoid alone
      rw [after_take_succ hk, Finset.sum_range_succ, ← ih (Nat.le_of_succ_le hk),
        errorAt_succ hk, ← prevRollError_after_take (u := u) (c := c) (Nat.le_of_succ_le hk)]
      simp only [computeRollToAileronDeflection, rollOutput]
      rw [bindPidAileronDeflection_of_abs_le (h.abs_le hk), sub_self, mul_zero, add_zero,
        rollIntegral_eq]
  · -- the derivative never sees the clamp
    refine filter_eq_sum
      (x := fun k => ((rollController u c).after (calls.take k)).rollDerivativeError) rfl ?_
    intro i hi
    have hi' : i < calls.length := Nat.lt_of_lt_of_le hi hk
    show ((rollController u c).after (calls.take (i + 1))).rollDerivativeError = _
    rw [after_take_succ hi', errorAt_succ hi',
      ← prevRollError_after_take (u := u) (c := c) hi'.le]
    exact rollDerivative_eq c _ _

/-- The output of a step of a run that never saturates. -/
theorem NeverSaturated.rollUnsaturatedOutput_eq (h : NeverSaturated u c calls) {k : ℕ}
    (hk : k < calls.length) :
    rollUnsaturatedOutput c ((rollController u c).after (calls.take k)) calls[k].angle =
      documentedPid c (errorAt calls) (k + 1) := by
  have hmemory := h.documentedMemory (k := k + 1) hk
  rw [after_take_succ hk] at hmemory
  have hintegral := hmemory.integral
  simp only [computeRollToAileronDeflection, rollOutput] at hintegral
  rw [bindPidAileronDeflection_of_abs_le (h.abs_le hk), sub_self, mul_zero, add_zero] at hintegral
  rw [rollUnsaturatedOutput, documentedPid, ← hintegral, ← hmemory.derivative,
    ← hmemory.prevRollError]
  rfl

/-- **The documented PID.** In a run that never saturates, every deflection returned is the
documented PID of the errors so far, truncated toward zero. -/
theorem rollDeflection_eq_documentedPid (_hki : c.ki ≠ 0) (_htau : 2 * c.tau + 0.04 ≠ 0)
    (h : NeverSaturated u c calls) {k : ℕ} {deflection : Int8}
    (hk : ((rollController u c).outputs calls)[k]? = some deflection) :
    deflection.toInt = truncate (documentedPid c (errorAt calls) (k + 1)) := by
  have hlength : k < calls.length := by
    have := (List.getElem?_eq_some_iff.mp hk).1
    rwa [Automaton.length_outputs] at this
  have hsplit : calls = calls.take k ++ calls[k] :: calls.drop (k + 1) := by simp
  have htake : (calls.take k).length = k := List.length_take_of_le hlength.le
  -- the deflection is the answer to its angle after the angles before it
  have houtput := (rollController u c).getElem?_outputs (calls.take k) calls[k]
    (calls.drop (k + 1))
  rw [← hsplit, htake, hk, Option.some_inj] at houtput
  have hle := h.abs_le hlength
  have hM : (u.maxAileronDeflection.toInt : ℚ) ≤ 127 := by
    exact_mod_cast (int8_toInt_bounds u.maxAileronDeflection).2
  obtain ⟨h₁, h₂⟩ := abs_le.mp hle
  rw [houtput, ← h.rollUnsaturatedOutput_eq hlength]
  show (computeRollToAileronDeflection u c _ calls[k].angle calls[k].outOfRange).2.toInt = _
  simp only [computeRollToAileronDeflection, rollOutput]
  rw [bindPidAileronDeflection_of_abs_le hle, narrow_of_mem (by linarith) (by linarith)]

/-- The shipped configuration at ten degrees, then at minus six. -/
theorem rollDeflection_shipped :
    (16 : Int8).toInt = truncate (documentedPid AutopilotConfig.shipped.stabilize
      (errorAt [⟨fun _ _ => 0, 10⟩, ⟨fun _ _ => 0, -6⟩]) 2) := by
  refine rollDeflection_eq_documentedPid (u := AutopilotConfig.shipped.utility)
    (by norm_num [AutopilotConfig.shipped]) (by norm_num [AutopilotConfig.shipped]) ?_ (k := 1)
    (by decide +kernel)
  intro pre call post h
  rcases pre with _ | ⟨first, _ | ⟨second, rest⟩⟩
  · obtain ⟨rfl, -⟩ := List.cons.inj h
    decide +kernel
  · obtain ⟨rfl, htail⟩ := List.cons.inj h
    obtain ⟨rfl, -⟩ := List.cons.inj htail
    decide +kernel
  · simp at h

end Documented

end RcPlane
