import RcPlane.Autopilot.ModeSelection
import RcPlane.Foundation.BinaryFormat

/-!
# The output envelope

Which outputs stay within the configured limits. The rescale of a stick is not clamped, so a
stick past its nominal range leaves the envelope, unless the overshoot rounds away or the
narrowing wraps it back in. The controllers' outputs are clamped, at different places on the two
axes.

## Main definitions

* `ThrottleFits`, `DeflectionFits`: the sticks whose binding stays within the limit
* `SticksFit`: all sticks that a call binds
* `RcEnvelope`, `PidEnvelope`: the envelopes of an answer
* `PidValid`: the configurations of the controllers

## Main results

* `bindRcThrottle_le_iff`, `abs_bindRcDeflection_le_iff`: the two conditions are exact
* `rcEnvelope_iff_sticksFit`: the answers of a run are within the envelope exactly when all its
  sticks fit
* `pid_envelope`: every run of the controllers is within the envelope
-/

namespace RcPlane

open Foundation

/-! ## Sticks -/

/-- The throttle stick is at most 100, or its overshoot scaled to the limit is less than one, or
so large that the narrowing to `uint8_t` wraps it once or twice to a value within the limit. -/
def ThrottleFits (limit stick : UInt8) : Prop :=
  stick.toNat * limit.toNat < 100 * (limit.toNat + 1) ∨
    25600 ≤ stick.toNat * limit.toNat ∧ stick.toNat * limit.toNat < 100 * (limit.toNat + 257) ∨
    51200 ≤ stick.toNat * limit.toNat

/-- The stick is within `[-100, 100]`, or its overshoot scaled to the limit is less than one, or
so large that the narrowing to `int8_t` wraps it to a value within the limits. -/
def DeflectionFits (limit stick : Int8) : Prop :=
  (|stick.toInt| - 100) * limit.toInt < 100 ∨ 25600 ≤ (|stick.toInt| + 100) * limit.toInt

instance (limit stick : UInt8) : Decidable (ThrottleFits limit stick) :=
  inferInstanceAs (Decidable (_ ∨ _))
instance (limit stick : Int8) : Decidable (DeflectionFits limit stick) :=
  inferInstanceAs (Decidable (_ ∨ _))

theorem bindRcThrottle_le_iff (u : AutopilotUtility) (stick : UInt8) :
    u.bindRcThrottle stick ≤ u.maxThrottle ↔ ThrottleFits u.maxThrottle stick := by
  have hs : stick.toNat * u.maxThrottle.toNat ≤ 255 * u.maxThrottle.toNat :=
    Nat.mul_le_mul_right _ (uint8_toNat_le stick)
  have hl := uint8_toNat_le u.maxThrottle
  rw [UInt8.le_iff_toNat_le, bindRcThrottle_toNat, ThrottleFits]
  generalize stick.toNat * u.maxThrottle.toNat = p at hs ⊢
  omega

/-- The bound stick is within the limit exactly when the stick fits. -/
theorem abs_bindRcDeflection_le_iff {limit : Int8} (h : 0 ≤ limit.toInt) (stick : Int8) :
    |(bindRcDeflection limit stick).toInt| ≤ limit.toInt ↔ DeflectionFits limit stick := by
  have hl := int8_toInt_bounds limit
  have hs := int8_toInt_bounds stick
  have hupper : stick.toInt * limit.toInt ≤ 127 * limit.toInt :=
    mul_le_mul_of_nonneg_right hs.2 h
  have hlower : -128 * limit.toInt ≤ stick.toInt * limit.toInt :=
    mul_le_mul_of_nonneg_right hs.1 h
  rw [bindRcDeflection_of_nonneg h, DeflectionFits, abs_le, add_mul]
  rcases le_or_gt 0 stick.toInt with h₀ | h₀
  · -- above neutral: the quotient is not negative
    have hp : 0 ≤ stick.toInt * limit.toInt := mul_nonneg h₀ h
    rw [abs_of_nonneg h₀, sub_mul, add_mul, tdiv_of_nonneg (by omega)]
    have hr := int8_ofInt_cases
      (n := (stick.toInt * limit.toInt + 100 * limit.toInt) / 100 - limit.toInt)
      (by omega) (by omega)
    omega
  · rw [abs_of_neg h₀, sub_mul, add_mul, neg_mul]
    rcases le_or_gt (-100) stick.toInt with h₁ | h₁
    · -- between the lower end and neutral: always within the limits
      have hp : -100 * limit.toInt ≤ stick.toInt * limit.toInt := mul_le_mul_of_nonneg_right h₁ h
      have hp₀ : stick.toInt * limit.toInt ≤ 0 := mul_nonpos_of_nonpos_of_nonneg h₀.le h
      rw [tdiv_of_nonneg (by omega)]
      have hr := int8_ofInt_cases
        (n := (stick.toInt * limit.toInt + 100 * limit.toInt) / 100 - limit.toInt)
        (by omega) (by omega)
      omega
    · -- below the lower end: the quotient is negative and rounds up
      have hp : stick.toInt * limit.toInt ≤ -101 * limit.toInt :=
        mul_le_mul_of_nonneg_right (by omega) h
      rw [tdiv_of_nonpos (by omega)]
      have hr := int8_ofInt_cases
        (n := -(-(stick.toInt * limit.toInt + 100 * limit.toInt) / 100) - limit.toInt)
        (by omega) (by omega)
      omega

/-- Every stick that a call binds to a limit fits: the throttle and the rudder always, the aileron
and the elevator when the call is manual. -/
structure SticksFit (u : AutopilotUtility) (p : RcRxPacket) : Prop where
  motor : ThrottleFits u.maxThrottle p.motorStickPosition
  rudder : DeflectionFits u.maxRudderDeflection p.rudderStickPosition
  aileron : ¬ p.assisted → DeflectionFits u.maxAileronDeflection p.aileronStickPosition
  elevator : ¬ p.assisted → DeflectionFits u.maxElevatorDeflection p.elevatorStickPosition

instance (u : AutopilotUtility) (p : RcRxPacket) : Decidable (SticksFit u p) :=
  decidable_of_iff
    (ThrottleFits u.maxThrottle p.motorStickPosition ∧
      DeflectionFits u.maxRudderDeflection p.rudderStickPosition ∧
      (¬ p.assisted → DeflectionFits u.maxAileronDeflection p.aileronStickPosition) ∧
      (¬ p.assisted → DeflectionFits u.maxElevatorDeflection p.elevatorStickPosition))
    ⟨fun ⟨m, r, a, e⟩ => ⟨m, r, a, e⟩, fun ⟨m, r, a, e⟩ => ⟨m, r, a, e⟩⟩

/-- The envelope of the channels bound from sticks, for the manager's state and answer after a
call. -/
structure RcEnvelope {D : Type} (u : AutopilotUtility)
    (r : AutopilotManager D × ControlSurfacePacket) : Prop where
  motor : r.2.motorSpeed ≤ u.maxThrottle
  rudder : |r.2.rudderDeflection.toInt| ≤ u.maxRudderDeflection.toInt
  aileron : r.1.isInManualMode → |r.2.aileronDeflection.toInt| ≤ u.maxAileronDeflection.toInt
  elevator : r.1.isInManualMode → |r.2.elevatorDeflection.toInt| ≤ u.maxElevatorDeflection.toInt

section Rc

variable {D : Type} [Double D] {promote : FloatPattern → D} {c : AutopilotConfig D}

/-- One call is within the envelope exactly when its sticks fit. -/
theorem rcEnvelope_trigger_iff (h : c.utility.NonNeg) {s : AutopilotManager D}
    (hs : s.Consistent) (call : TriggerCall D) :
    RcEnvelope c.utility (AutopilotManager.trigger promote c s call) ↔
      SticksFit c.utility call.rcRxPacket := by
  have hmotor := bindRcThrottle_le_iff c.utility call.rcRxPacket.motorStickPosition
  have hrudder := abs_bindRcDeflection_le_iff h.rudder call.rcRxPacket.rudderStickPosition
  by_cases hc : call.rcRxPacket.assisted
  · -- the sticks of the controllers' channels are not read, and the mode is not manual
    rw [AutopilotManager.trigger_of_assisted hs hc]
    constructor
    · rintro ⟨hm, hr, -, -⟩
      exact ⟨hmotor.mp hm, hrudder.mp hr, fun hn => absurd hc hn, fun hn => absurd hc hn⟩
    · rintro ⟨hm, hr, -, -⟩
      refine ⟨hmotor.mpr hm, hrudder.mpr hr, fun hn => ?_, fun hn => ?_⟩
      · simp [AutopilotManager.isInManualMode] at hn
      · simp [AutopilotManager.isInManualMode] at hn
  · rw [AutopilotManager.trigger_of_not_assisted hs hc]
    have haileron := abs_bindRcDeflection_le_iff h.aileron call.rcRxPacket.aileronStickPosition
    have helevator := abs_bindRcDeflection_le_iff h.elevator call.rcRxPacket.elevatorStickPosition
    constructor
    · rintro ⟨hm, hr, ha, he⟩
      exact ⟨hmotor.mp hm, hrudder.mp hr, fun _ => haileron.mp (ha rfl),
        fun _ => helevator.mp (he rfl)⟩
    · rintro ⟨hm, hr, ha, he⟩
      exact ⟨hmotor.mpr hm, hrudder.mpr hr, fun _ => haileron.mpr (ha hc),
        fun _ => helevator.mpr (he hc)⟩

variable (promote c)

/-- **The envelope of the stick channels.** The answers of a run are all within the envelope
exactly when the sticks of all its calls fit. -/
theorem rcEnvelope_iff_sticksFit (h : c.utility.NonNeg) (calls : List (TriggerCall D)) :
    (∀ r ∈ (AutopilotManager.automaton promote c).trace calls, RcEnvelope c.utility r) ↔
      ∀ call ∈ calls, SticksFit c.utility call.rcRxPacket :=
  Automaton.forall_trace_iff (P := AutopilotManager.Consistent)
    AutopilotManager.initial_consistent (fun _ call hs => hs.trigger call)
    (fun _ call hs => rcEnvelope_trigger_iff h hs call) calls

/-- Full sticks in both modes, with the shipped limits. -/
theorem rcEnvelope_full_sticks :
    (∀ r ∈ (AutopilotManager.automaton (fun _ => 0) AutopilotConfig.shipped).trace
      [⟨fun _ _ => 0, ⟨0, 0x80, 100, 0, 0, -100⟩, {}⟩,
        ⟨fun _ _ => 0, ⟨0, 0, 100, 100, -100, 100⟩, {}⟩],
        RcEnvelope AutopilotConfig.shipped.utility r) ↔
      ∀ call ∈ ([⟨fun _ _ => 0, ⟨0, 0x80, 100, 0, 0, -100⟩, {}⟩,
        ⟨fun _ _ => 0, ⟨0, 0, 100, 100, -100, 100⟩, {}⟩] : List (TriggerCall ℚ)),
        SticksFit AutopilotConfig.shipped.utility call.rcRxPacket :=
  rcEnvelope_iff_sticksFit _ _ (by decide) _

/-- An aileron stick of 110 is bound to 38, past the shipped limit of 35. -/
theorem rcEnvelope_exceeded :
    ¬ ∀ r ∈ (AutopilotManager.automaton (fun _ => 0) AutopilotConfig.shipped).trace
      [⟨fun _ _ => 0, { aileronStickPosition := 110 }, {}⟩],
        RcEnvelope AutopilotConfig.shipped.utility r := by
  intro h
  have haileron := (h _ (List.mem_singleton.mpr rfl)).aileron (by decide)
  revert haileron
  decide

end Rc

/-! ## Controllers -/

/-- The configurations of the controllers: the divisors of a control step are not zero, and the
limits are in range. The gains are arbitrary, and so are the sticks' limits. -/
structure PidValid (c : AutopilotConfig ℚ) : Prop where
  ki : c.stabilize.ki ≠ 0
  tau : 2 * c.stabilize.tau + 0.04 ≠ 0
  aileron : 0 ≤ c.utility.maxAileronDeflection.toInt
  elevator : 0 ≤ c.utility.maxElevatorDeflection.toInt
  integral : 0 ≤ c.stabilize.maxIntegralError
  integral_le : c.stabilize.maxIntegralError ≤ 127

/-- The envelope of the channels driven by the controllers. -/
structure PidEnvelope (u : AutopilotUtility) (p : ControlSurfacePacket) : Prop where
  aileron : |p.aileronDeflection.toInt| ≤ u.maxAileronDeflection.toInt
  elevator : |p.elevatorDeflection.toInt| ≤ u.maxElevatorDeflection.toInt

section Pid

variable {promote : FloatPattern → ℚ} {u : AutopilotUtility} {c : StabilizeConfig ℚ}

theorem bindPidAileronDeflection_mem (h : 0 ≤ u.maxAileronDeflection.toInt) (value : ℚ) :
    -(u.maxAileronDeflection.toInt : ℚ) ≤ u.bindPidAileronDeflection value ∧
      u.bindPidAileronDeflection value ≤ u.maxAileronDeflection.toInt := by
  have hm : (0 : ℚ) ≤ u.maxAileronDeflection.toInt := by exact_mod_cast h
  unfold AutopilotUtility.bindPidAileronDeflection
  split_ifs with h₁ h₂
  · exact ⟨by linarith, le_refl _⟩
  · push_cast
    exact ⟨le_refl _, by linarith⟩
  · push_cast at h₂
    exact ⟨not_lt.mp h₂, not_lt.mp h₁⟩

theorem abs_bindPidElevatorDeflection_le (h : 0 ≤ u.maxElevatorDeflection.toInt) (value : Int8) :
    |(u.bindPidElevatorDeflection value).toInt| ≤ u.maxElevatorDeflection.toInt := by
  have hl := int8_toInt_bounds u.maxElevatorDeflection
  unfold AutopilotUtility.bindPidElevatorDeflection
  split_ifs with h₁ h₂
  · exact (abs_of_nonneg h).le
  · rw [int8_ofInt_of_mem (by omega) (by omega), abs_neg]
    exact (abs_of_nonneg h).le
  · exact abs_le.mpr ⟨not_lt.mp h₂, not_lt.mp h₁⟩

/-- Whatever the narrowed sum was, the bound integral is within its limit. -/
theorem abs_bindIntegralError_le (h₀ : 0 ≤ c.maxIntegralError) (h₁ : c.maxIntegralError ≤ 127)
    (outOfRange : Conversion → ℚ → Int8) (integralError : Int8) :
    |((bindIntegralError c outOfRange integralError).toInt : ℚ)| ≤ c.maxIntegralError := by
  unfold bindIntegralError
  split_ifs with h₂ h₃
  · rw [narrow_of_mem (by linarith) h₁]
    exact (abs_truncate_le _).trans (abs_of_nonneg h₀).le
  · rw [narrow_of_mem (by linarith) (by linarith)]
    exact (abs_truncate_le _).trans (by rw [abs_neg, abs_of_nonneg h₀])
  · exact abs_le.mpr ⟨not_lt.mp h₃, not_lt.mp h₂⟩

/-- The roll output is within the aileron limit before it is narrowed. -/
theorem rollOutput_mem (h : 0 ≤ u.maxAileronDeflection.toInt) (m : StabilizeMemory ℚ)
    (rollAngle : ℚ) : -128 ≤ rollOutput u c m rollAngle ∧ rollOutput u c m rollAngle ≤ 127 := by
  obtain ⟨h₁, h₂⟩ := bindPidAileronDeflection_mem h (rollUnsaturatedOutput c m rollAngle)
  have hl : (u.maxAileronDeflection.toInt : ℚ) ≤ 127 := by
    exact_mod_cast (int8_toInt_bounds u.maxAileronDeflection).2
  exact ⟨by unfold rollOutput; linarith, by unfold rollOutput; linarith⟩

theorem abs_computeRollToAileronDeflection_le (h : 0 ≤ u.maxAileronDeflection.toInt)
    (m : StabilizeMemory ℚ) (rollAngle : ℚ) (outOfRange : Conversion → ℚ → Int8) :
    |(computeRollToAileronDeflection u c m rollAngle outOfRange).2.toInt| ≤
      u.maxAileronDeflection.toInt := by
  obtain ⟨h₁, h₂⟩ := rollOutput_mem (c := c) h m rollAngle
  obtain ⟨h₃, h₄⟩ := bindPidAileronDeflection_mem h (rollUnsaturatedOutput c m rollAngle)
  rw [computeRollToAileronDeflection, narrow_of_mem h₁ h₂]
  exact abs_le.mpr (truncate_mem_of_mem (by push_cast; exact h₃) h₄)

end Pid

/-- The pitch integral is within its limit. -/
def IntegralBounded (c : StabilizeConfig ℚ) (m : StabilizeMemory ℚ) : Prop :=
  |m.pitchIntegralError| ≤ c.maxIntegralError

theorem integralBounded_initial {c : StabilizeConfig ℚ} (h : 0 ≤ c.maxIntegralError) :
    IntegralBounded c StabilizeMemory.initial := by
  show |(0 : ℚ)| ≤ _
  rw [abs_zero]
  exact h

theorem integralBounded_trigger (promote : FloatPattern → ℚ) {c : AutopilotConfig ℚ}
    (h : PidValid c) (m : StabilizeMemory ℚ) (call : TriggerCall ℚ) :
    IntegralBounded c.stabilize
      (StabilizeAutopilot.trigger promote c.utility c.stabilize m call).1 := by
  rw [IntegralBounded, StabilizeAutopilot.trigger_pitchIntegralError]
  exact abs_bindIntegralError_le h.integral h.integral_le call.outOfRange _

theorem integralBounded_after {promote : FloatPattern → ℚ} {c : AutopilotConfig ℚ}
    (h : PidValid c) (calls : List (TriggerCall ℚ)) :
    IntegralBounded c.stabilize
      ((StabilizeAutopilot.automaton promote c.utility c.stabilize).after calls) :=
  Automaton.after_induction (A := fun _ => True) (integralBounded_initial h.integral)
    (fun m call _ _ => integralBounded_trigger promote h m call) fun _ _ => trivial

/-- **The envelope of the controllers.** Along every run from construction both deflections are
within their limits, the roll value is in the range of `int8_t` when it is cast, and the pitch
integral is within its limit. -/
theorem pid_envelope (promote : FloatPattern → ℚ) (c : AutopilotConfig ℚ) (h : PidValid c)
    (calls : List (TriggerCall ℚ)) :
    (∀ p ∈ (StabilizeAutopilot.automaton promote c.utility c.stabilize).outputs calls,
      PidEnvelope c.utility p) ∧
    (∀ pre call post, calls = pre ++ call :: post →
      -128 ≤ rollOutput c.utility c.stabilize
          ((StabilizeAutopilot.automaton promote c.utility c.stabilize).after pre)
          (promote call.imuPacket.gyroX) ∧
        rollOutput c.utility c.stabilize
          ((StabilizeAutopilot.automaton promote c.utility c.stabilize).after pre)
          (promote call.imuPacket.gyroX) ≤ 127) ∧
    |((StabilizeAutopilot.automaton promote c.utility c.stabilize).after
      calls).pitchIntegralError| ≤ c.stabilize.maxIntegralError := by
  refine ⟨fun p hp => ?_, fun pre call post _ => rollOutput_mem h.aileron _ _, ?_⟩
  · obtain ⟨r, hr, rfl⟩ := List.mem_map.mp hp
    obtain ⟨pre, call, post, -, rfl⟩ := Automaton.exists_of_mem_trace hr
    exact ⟨abs_computeRollToAileronDeflection_le h.aileron _ _ _,
      abs_bindPidElevatorDeflection_le h.elevator _⟩
  · exact integralBounded_after h calls

theorem pidValid_shipped : PidValid AutopilotConfig.shipped where
  ki := by norm_num [AutopilotConfig.shipped]
  tau := by norm_num [AutopilotConfig.shipped]
  aileron := by decide
  elevator := by decide
  integral := by norm_num [AutopilotConfig.shipped]
  integral_le := by norm_num [AutopilotConfig.shipped]

/-- A `float` as a rational. -/
def rationalOfFloat (b : FloatPattern) : ℚ := (BinaryFormat.binary32.value b.toNat).value

/-- Two calls at a roll of 90 and a pitch of 300 degrees. -/
def steepCalls : List (TriggerCall ℚ) :=
  List.replicate 2 ⟨fun _ _ => 0, {}, { gyroX := 0x42B40000, gyroY := 0x43960000 }⟩

/-- The shipped configuration, at a steep roll and pitch. -/
theorem pid_envelope_shipped :
    (∀ p ∈ (StabilizeAutopilot.automaton rationalOfFloat AutopilotConfig.shipped.utility
        AutopilotConfig.shipped.stabilize).outputs steepCalls,
      PidEnvelope AutopilotConfig.shipped.utility p) ∧
    (∀ pre call post, steepCalls = pre ++ call :: post →
      -128 ≤ rollOutput AutopilotConfig.shipped.utility AutopilotConfig.shipped.stabilize
          ((StabilizeAutopilot.automaton rationalOfFloat AutopilotConfig.shipped.utility
            AutopilotConfig.shipped.stabilize).after pre)
          (rationalOfFloat call.imuPacket.gyroX) ∧
        rollOutput AutopilotConfig.shipped.utility AutopilotConfig.shipped.stabilize
          ((StabilizeAutopilot.automaton rationalOfFloat AutopilotConfig.shipped.utility
            AutopilotConfig.shipped.stabilize).after pre)
          (rationalOfFloat call.imuPacket.gyroX) ≤ 127) ∧
    |((StabilizeAutopilot.automaton rationalOfFloat AutopilotConfig.shipped.utility
      AutopilotConfig.shipped.stabilize).after steepCalls).pitchIntegralError| ≤
        AutopilotConfig.shipped.stabilize.maxIntegralError :=
  pid_envelope rationalOfFloat AutopilotConfig.shipped pidValid_shipped steepCalls

/-- Both angles saturate their channels: the aileron is at its limit, and so is the integral. -/
example : rationalOfFloat 0x42B40000 = 90 ∧ rationalOfFloat 0x43960000 = 300 ∧
    ((StabilizeAutopilot.automaton rationalOfFloat AutopilotConfig.shipped.utility
      AutopilotConfig.shipped.stabilize).outputs steepCalls).map (·.aileronDeflection) =
        [-35, -35] := by decide +kernel

end RcPlane
