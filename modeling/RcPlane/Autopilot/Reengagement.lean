import RcPlane.Autopilot.ModeSelection

/-!
# Re-engaging stabilization

Nothing clears the memory of the controllers: a manual call leaves it as it is, so what an earlier
stabilized phase accumulated is there when stabilization is engaged again.

## Main definitions

* `assistedCalls`: the calls of a run that reach the stabilize autopilot
* `SameForPilot`: two answers that agree in what the pilot alone decides

## Main results

* `stabilizeAutopilot_after`: the memory after a run is that of the stabilize autopilot on the
  assisted calls alone
* `sameForPilot_outputs`: what the pilot alone decides does not depend on the calls before
* `reengagement`: what a run does from some call on depends on the calls before it through that
  memory only, and manual calls not at all
-/

namespace RcPlane

open Foundation

namespace AutopilotManager

variable {D : Type} [Double D]

/-- The calls that reach the stabilize autopilot. -/
def assistedCalls (calls : List (TriggerCall D)) : List (TriggerCall D) :=
  calls.filter fun call => call.rcRxPacket.assisted

section Memory

variable (promote : FloatPattern → D) (c : AutopilotConfig D)

/-- The memory of the controllers after a run of the manager is that after its assisted calls. -/
theorem stabilizeAutopilot_after (calls : List (TriggerCall D)) :
    ((automaton promote c).after calls).stabilizeAutopilot =
      (StabilizeAutopilot.automaton promote c.utility c.stabilize).after
        (assistedCalls calls) := by
  induction calls using List.reverseRecOn with
  | nil => rfl
  | append_singleton calls call ih =>
    have hcons : ((automaton promote c).after calls).Consistent := consistent_after calls
    rw [Automaton.after_snoc, assistedCalls, List.filter_append]
    show (trigger promote c _ call).1.stabilizeAutopilot = _
    -- an assisted call is one of the stabilize autopilot, a manual one does not reach it
    by_cases hc : call.rcRxPacket.assisted
    · have hfilter : [call].filter (fun call => call.rcRxPacket.assisted) = [call] := by
        simp [hc]
      rw [hfilter, Automaton.after_snoc, trigger_of_assisted hcons hc, ih]
      rfl
    · have hfilter : [call].filter (fun call => call.rcRxPacket.assisted) = [] := by
        simp [hc]
      rw [hfilter, List.append_nil, trigger_of_not_assisted hcons hc]
      exact ih

/-- A phase of manual calls leaves the memory as it is. -/
theorem stabilizeAutopilot_after_manual (calls : List (TriggerCall D))
    {manual : List (TriggerCall D)} (h : ∀ call ∈ manual, ¬ call.rcRxPacket.assisted) :
    ((automaton promote c).after (calls ++ manual)).stabilizeAutopilot =
      ((automaton promote c).after calls).stabilizeAutopilot := by
  have hnone : assistedCalls manual = [] := by
    simp only [assistedCalls, List.filter_eq_nil_iff, decide_eq_true_eq]
    exact h
  rw [stabilizeAutopilot_after, stabilizeAutopilot_after, assistedCalls, List.filter_append,
    ← assistedCalls, ← assistedCalls, hnone, List.append_nil]

/-- From equal memories on, two runs answer alike. -/
theorem drop_outputs_eq (suffix : List (TriggerCall D)) {pre pre' : List (TriggerCall D)}
    (h : ((automaton promote c).after pre).stabilizeAutopilot =
      ((automaton promote c).after pre').stabilizeAutopilot) :
    ((automaton promote c).outputs (pre ++ suffix)).drop pre.length =
      ((automaton promote c).outputs (pre' ++ suffix)).drop pre'.length := by
  rw [Automaton.drop_outputs_append, Automaton.drop_outputs_append]
  -- the modes may differ before the first call: it selects its own
  refine Automaton.traceFrom_snd_eq_of_rel (E := AgreeWhenAssisted)
    (R := fun s t => s.Consistent ∧ t.Consistent ∧ s.stabilizeAutopilot = t.stabilizeAutopilot)
    ?_ (List.forall₂_same.mpr fun _ _ => ⟨rfl, rfl, fun _ => rfl⟩)
    ⟨consistent_after pre, consistent_after pre', h⟩
  rintro s t a b ⟨hs, ht, hst⟩ hab
  obtain ⟨hmemory, hout⟩ := trigger_agree promote c hs ht hst hab
  exact ⟨⟨hs.trigger a, ht.trigger b, hmemory⟩, hout⟩

/-- The answers of two runs to one call agree in what the pilot alone decides. -/
structure SameForPilot (call : TriggerCall D) (p q : ControlSurfacePacket) : Prop where
  motorSpeed : p.motorSpeed = q.motorSpeed
  rudderDeflection : p.rudderDeflection = q.rudderDeflection
  manual : ¬ call.rcRxPacket.assisted → p = q

/-- In all states of the manager, a call is answered alike in what the pilot alone decides. -/
theorem sameForPilot_trigger {s t : AutopilotManager D} (hs : s.Consistent) (ht : t.Consistent)
    (call : TriggerCall D) :
    SameForPilot call (trigger promote c s call).2 (trigger promote c t call).2 := by
  by_cases hc : call.rcRxPacket.assisted
  · rw [trigger_of_assisted hs hc, trigger_of_assisted ht hc]
    exact ⟨rfl, rfl, fun hn => absurd hc hn⟩
  · rw [trigger_of_not_assisted hs hc, trigger_of_not_assisted ht hc]
    exact ⟨rfl, rfl, fun _ => rfl⟩

/-- Whatever came before, two runs that go on with the same calls answer them alike in what the
pilot alone decides. -/
theorem sameForPilot_outputs (pre pre' : List (TriggerCall D)) (suffix : List (TriggerCall D)) :
    List.Forall₂ (fun call p => SameForPilot call p.1 p.2) suffix
      (List.zip (((automaton promote c).outputs (pre ++ suffix)).drop pre.length)
        (((automaton promote c).outputs (pre' ++ suffix)).drop pre'.length)) := by
  rw [Automaton.drop_outputs_append, Automaton.drop_outputs_append]
  have hpre : ((automaton promote c).after pre).Consistent := consistent_after pre
  have hpre' : ((automaton promote c).after pre').Consistent := consistent_after pre'
  generalize (automaton promote c).after pre = s at hpre
  generalize (automaton promote c).after pre' = t at hpre'
  induction suffix generalizing s t with
  | nil => exact List.Forall₂.nil
  | cons call suffix ih =>
    refine List.Forall₂.cons (sameForPilot_trigger promote c hpre hpre' call) ?_
    exact ih _ (hpre.trigger call) _ (hpre'.trigger call)

/-- **Re-engaging stabilization.** Two runs that end with the same calls answer all of these alike
in motor speed and rudder, and the manual ones in everything. A manual phase leaves the
controllers' memory as the last assisted call before it left it; and the answers to the assisted
calls are the same too if the calls before left the same memory, as they do if the assisted ones
among them are the same. -/
theorem reengagement :
    (∀ pre pre' suffix : List (TriggerCall D),
      List.Forall₂ (fun call p => SameForPilot call p.1 p.2) suffix
        (List.zip (((automaton promote c).outputs (pre ++ suffix)).drop pre.length)
          (((automaton promote c).outputs (pre' ++ suffix)).drop pre'.length))) ∧
    (∀ calls manual : List (TriggerCall D), (∀ call ∈ manual, ¬ call.rcRxPacket.assisted) →
      ((automaton promote c).after (calls ++ manual)).stabilizeAutopilot =
        ((automaton promote c).after calls).stabilizeAutopilot) ∧
    (∀ pre pre' suffix : List (TriggerCall D),
      ((automaton promote c).after pre).stabilizeAutopilot =
          ((automaton promote c).after pre').stabilizeAutopilot →
        ((automaton promote c).outputs (pre ++ suffix)).drop pre.length =
          ((automaton promote c).outputs (pre' ++ suffix)).drop pre'.length) ∧
    ∀ pre pre' suffix : List (TriggerCall D), assistedCalls pre = assistedCalls pre' →
      ((automaton promote c).outputs (pre ++ suffix)).drop pre.length =
        ((automaton promote c).outputs (pre' ++ suffix)).drop pre'.length := by
  refine ⟨sameForPilot_outputs promote c,
    fun calls _ h => stabilizeAutopilot_after_manual promote c calls h,
    fun _ _ suffix h => drop_outputs_eq promote c suffix h, fun _ _ suffix h => ?_⟩
  apply drop_outputs_eq
  rw [stabilizeAutopilot_after, stabilizeAutopilot_after, h]

end Memory

section Shipped

/-- A roll of ten degrees, and level flight otherwise. -/
def tenDegrees (b : FloatPattern) : ℚ := if b = 0x41200000 then 10 else 0

/-- An assisted call at a roll of ten degrees. -/
def assistedRoll : TriggerCall ℚ := ⟨fun _ _ => 0, { state := 0x80 }, { gyroX := 0x41200000 }⟩

/-- An assisted call in level flight. -/
def assistedLevel : TriggerCall ℚ := ⟨fun _ _ => 0, { state := 0x80 }, {}⟩

/-- A manual call with half throttle. -/
def manualCall : TriggerCall ℚ := ⟨fun _ _ => 0, { motorStickPosition := 50 }, {}⟩

/-- With the shipped configuration: a stabilized phase in two parts or in one leaves the same to the
calls after a manual one. -/
theorem reengagement_shipped :
    ((automaton tenDegrees AutopilotConfig.shipped).outputs
      ([assistedRoll, manualCall, assistedRoll] ++ [manualCall, assistedLevel])).drop 3 =
    ((automaton tenDegrees AutopilotConfig.shipped).outputs
      ([assistedRoll, assistedRoll] ++ [manualCall, assistedLevel])).drop 2 :=
  (reengagement tenDegrees AutopilotConfig.shipped).2.2.2 [assistedRoll, manualCall, assistedRoll]
    [assistedRoll, assistedRoll] [manualCall, assistedLevel] rfl

/-- One assisted call at a roll of ten degrees, or none, before a manual call and an assisted call
in level flight: the last answers differ. -/
theorem reengagement_leaks :
    ¬ ∀ (pre pre' : List (TriggerCall ℚ)) (first : TriggerCall ℚ) (rest : List (TriggerCall ℚ)),
      ¬ first.rcRxPacket.assisted →
      ((automaton tenDegrees AutopilotConfig.shipped).outputs
          (pre ++ first :: rest)).drop pre.length =
        ((automaton tenDegrees AutopilotConfig.shipped).outputs
          (pre' ++ first :: rest)).drop pre'.length := by
  intro h
  have hleak := h [assistedRoll] [] manualCall [assistedLevel] (by decide)
  revert hleak
  decide +kernel

end Shipped

end AutopilotManager

end RcPlane
