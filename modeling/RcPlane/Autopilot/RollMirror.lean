import RcPlane.Autopilot.RollController

/-!
# The mirror symmetry of the roll controller

Over exact rationals every quantity that a step of the roll controller computes is odd in the
angle and the memory: the filter and the trapezoid are linear, the clamp is symmetric although it
is written as two one-sided tests, and the cast truncates toward zero. Two runs on opposite
angles keep opposite memories and return opposite deflections.

## Main definitions

* `Mirrored`: two memories of the roll controller are opposite

## Main results

* `roll_mirror`: opposite angles give opposite deflections
-/

namespace RcPlane

open Foundation

/-- Two memories of the roll controller are opposite. -/
structure Mirrored (m m' : StabilizeMemory ℚ) : Prop where
  prevRollError : m'.prevRollError = -m.prevRollError
  rollDerivativeError : m'.rollDerivativeError = -m.rollDerivativeError
  rollIntegralError : m'.rollIntegralError = -m.rollIntegralError

theorem Mirrored.initial : Mirrored StabilizeMemory.initial StabilizeMemory.initial :=
  ⟨neg_zero.symm, neg_zero.symm, neg_zero.symm⟩

section Step

variable {u : AutopilotUtility} {c : StabilizeConfig ℚ} {m m' : StabilizeMemory ℚ}

theorem Mirrored.rollIntegral (h : Mirrored m m') (r : ℚ) :
    rollIntegral m' (-r) = -rollIntegral m r := by
  rw [rollIntegral_eq, rollIntegral_eq, h.rollIntegralError, h.prevRollError]
  ring

theorem Mirrored.rollDerivative (h : Mirrored m m') (r : ℚ) :
    rollDerivative c m' (-r) = -rollDerivative c m r := by
  rw [rollDerivative_eq, rollDerivative_eq, h.rollDerivativeError, h.prevRollError]
  ring

theorem Mirrored.rollUnsaturatedOutput (h : Mirrored m m') (r : ℚ) :
    rollUnsaturatedOutput c m' (-r) = -rollUnsaturatedOutput c m r := by
  rw [rollUnsaturatedOutput_eq, rollUnsaturatedOutput_eq, h.rollIntegral, h.rollDerivative]
  ring

theorem Mirrored.rollOutput (h : Mirrored m m') (hM : 0 ≤ u.maxAileronDeflection.toInt) (r : ℚ) :
    rollOutput u c m' (-r) = -rollOutput u c m r := by
  have hM' : (0 : ℚ) ≤ u.maxAileronDeflection.toInt := by exact_mod_cast hM
  rw [RcPlane.rollOutput, RcPlane.rollOutput, bindPidAileronDeflection_eq_clamp hM,
    bindPidAileronDeflection_eq_clamp hM, h.rollUnsaturatedOutput, clamp_neg hM']

/-- A step at the opposite angle keeps the memories opposite and negates the deflection. -/
theorem Mirrored.step (h : Mirrored m m') (hM : 0 ≤ u.maxAileronDeflection.toInt)
    {call call' : AngleCall ℚ} (hcall : call'.angle = -call.angle) :
    Mirrored ((rollController u c).step m call).1 ((rollController u c).step m' call').1 ∧
      ((rollController u c).step m' call').2.toInt =
        -((rollController u c).step m call).2.toInt := by
  have hM' : (0 : ℚ) ≤ u.maxAileronDeflection.toInt := by exact_mod_cast hM
  simp only [rollController, hcall]
  refine ⟨⟨?_, h.rollDerivative _, ?_⟩, ?_⟩
  · simp only [computeRollToAileronDeflection, rollError_eq]
  · simp only [computeRollToAileronDeflection]
    rw [h.rollIntegral, h.rollOutput hM, h.rollUnsaturatedOutput]
    ring
  · rw [roll_deflection_eq _ _ _ hM, roll_deflection_eq _ _ _ hM, h.rollUnsaturatedOutput,
      clamp_neg hM', truncate_neg]

end Step

/-- **Mirror symmetry.** On opposite angles the roll controller returns opposite deflections, in
every step of every run, saturated or not. -/
theorem roll_mirror {u : AutopilotUtility} {c : StabilizeConfig ℚ} (_hki : c.ki ≠ 0)
    (_htau : 2 * c.tau + 0.04 ≠ 0) (hM : 0 ≤ u.maxAileronDeflection.toInt)
    {calls calls' : List (AngleCall ℚ)}
    (hcalls : List.Forall₂ (fun call call' => call'.angle = -call.angle) calls calls') :
    ((rollController u c).outputs calls').map Int8.toInt =
      ((rollController u c).outputs calls).map (fun deflection => -deflection.toInt) := by
  have h := (Automaton.traceFrom_rel (M := rollController u c) (N := rollController u c)
    (F := fun p p' => p'.2.toInt = -p.2.toInt) (fun _ _ _ _ hm hcall => hm.step hM hcall)
    hcalls Mirrored.initial).2
  rw [← List.forall₂_eq_eq_eq]
  simp only [Automaton.outputs, Automaton.trace, List.forall₂_map_left_iff,
    List.forall₂_map_right_iff]
  exact h.flip

/-- Two steps with the shipped configuration, the first of them saturated. -/
theorem roll_mirror_shipped :
    ((rollController AutopilotConfig.shipped.utility AutopilotConfig.shipped.stabilize).outputs
        [⟨fun _ _ => 0, -60⟩, ⟨fun _ _ => 0, 7 / 2⟩]).map Int8.toInt =
      ((rollController AutopilotConfig.shipped.utility AutopilotConfig.shipped.stabilize).outputs
        [⟨fun _ _ => 9, 60⟩, ⟨fun _ _ => 9, -7 / 2⟩]).map (fun deflection => -deflection.toInt) :=
  roll_mirror (by norm_num [AutopilotConfig.shipped]) (by norm_num [AutopilotConfig.shipped])
    (by decide) (.cons rfl (.cons (by norm_num) .nil))

end RcPlane
