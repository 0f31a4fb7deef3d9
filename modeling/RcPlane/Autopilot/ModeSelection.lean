import RcPlane.Autopilot.AutopilotManager

/-!
# Mode selection over whole runs

`handleState` does nothing when the masked state is the previous one, so the autopilot in use
follows the state of the current packet only because it always agrees with `prevState`. With that
invariant one call has two cases, and the runs are compared call by call: the stabilizer's memory
is read and written by the assisted calls only.

## Main definitions

* `RcRxPacket.assisted`, `RcRxPacket.userRoll`, `RcRxPacket.userPitch`: the flags of a packet
* `AutopilotManager.Consistent`: the autopilot in use is the one `prevState` selects
* `AutopilotManager.NeverOverrides`: user input flags are honoured along a run

## Main results

* `AutopilotManager.trigger_of_not_assisted`, `AutopilotManager.trigger_of_assisted`: one call
* `AutopilotManager.mode_selection_and_isolation`: mode and manual outputs follow the current
  packet, and the IMU packets of manual calls are never seen
* `AutopilotManager.neverOverrides_iff_no_user_input`: the pilot is never overridden exactly when
  no assisted call carries a user input flag
-/

namespace RcPlane

open Foundation

/-! ## Flags -/

/-- The assistance flag is set. -/
def RcRxPacket.assisted (p : RcRxPacket) : Prop := p.state &&& kASSISTANCE_FLAG ≠ 0

/-- The user is manipulating the roll stick. -/
def RcRxPacket.userRoll (p : RcRxPacket) : Prop := p.state &&& kUSER_ROLL ≠ 0

/-- The user is manipulating the pitch stick. -/
def RcRxPacket.userPitch (p : RcRxPacket) : Prop := p.state &&& kUSER_PITCH ≠ 0

instance (p : RcRxPacket) : Decidable p.assisted := inferInstanceAs (Decidable (_ ≠ _))
instance (p : RcRxPacket) : Decidable p.userRoll := inferInstanceAs (Decidable (_ ≠ _))
instance (p : RcRxPacket) : Decidable p.userPitch := inferInstanceAs (Decidable (_ ≠ _))

/-- The mask keeps the assistance flag. -/
theorem masked_assistance (state : UInt8) :
    state &&& kAUTOPILOT_MASK &&& kASSISTANCE_FLAG = state &&& kASSISTANCE_FLAG := by
  rw [kAUTOPILOT_MASK, UInt8.and_assoc, UInt8.and_self]

namespace AutopilotManager

variable {D : Type}

/-! ## One call -/

/-- The autopilot that a masked state selects. -/
def selected (state : UInt8) : Autopilot :=
  if state &&& kASSISTANCE_FLAG ≠ 0 then .stabilize else .manual

/-- The autopilot in use is the one selected by the state that was last handled. -/
def Consistent (s : AutopilotManager D) : Prop := s.autopilot = selected s.prevState

theorem isInManualMode_iff_not (s : AutopilotManager D) :
    s.isInManualMode ↔ ¬ s.isInStabilizeMode := by
  cases h : s.autopilot <;> simp [isInManualMode, isInStabilizeMode, h]

theorem handleState_eq {s : AutopilotManager D} (h : s.Consistent) (state : UInt8) :
    s.handleState state = { s with autopilot := selected state, prevState := state } := by
  by_cases hs : state = s.prevState
  · -- the early return: nothing changes, and nothing has to
    subst hs
    rw [handleState, if_pos rfl, ← h]
  · rw [handleState, if_neg hs]
    rfl

variable [Double D] {promote : FloatPattern → D} {c : AutopilotConfig D}

/-- A call without the assistance flag: manual, and the stabilizer's memory is kept. -/
theorem trigger_of_not_assisted {s : AutopilotManager D} {call : TriggerCall D}
    (h : s.Consistent) (hc : ¬ call.rcRxPacket.assisted) :
    trigger promote c s call =
      (⟨s.stabilizeAutopilot, .manual, call.rcRxPacket.state &&& kAUTOPILOT_MASK⟩,
        ManualAutopilot.trigger c.utility call.rcRxPacket) := by
  have hm : selected (call.rcRxPacket.state &&& kAUTOPILOT_MASK) = .manual := by
    rw [selected, masked_assistance]
    exact if_neg hc
  simp only [trigger, handleState_eq h, hm]

/-- A call with the assistance flag: the stabilizer's own call, on its own memory. -/
theorem trigger_of_assisted {s : AutopilotManager D} {call : TriggerCall D}
    (h : s.Consistent) (hc : call.rcRxPacket.assisted) :
    trigger promote c s call =
      (⟨(StabilizeAutopilot.trigger promote c.utility c.stabilize s.stabilizeAutopilot call).1,
          .stabilize, call.rcRxPacket.state &&& kAUTOPILOT_MASK⟩,
        (StabilizeAutopilot.trigger promote c.utility c.stabilize
          s.stabilizeAutopilot call).2) := by
  have hm : selected (call.rcRxPacket.state &&& kAUTOPILOT_MASK) = .stabilize := by
    rw [selected, masked_assistance]
    exact if_pos hc
  simp only [trigger, handleState_eq h, hm]

theorem initial_consistent : (initial : AutopilotManager D).Consistent := by
  show Autopilot.manual = selected 0
  decide

/-- Every call leaves the manager consistent. -/
theorem Consistent.trigger {s : AutopilotManager D} (h : s.Consistent) (call : TriggerCall D) :
    (trigger promote c s call).1.Consistent := by
  by_cases hc : call.rcRxPacket.assisted
  · rw [trigger_of_assisted h hc, Consistent, selected, masked_assistance]
    exact (if_pos hc).symm
  · rw [trigger_of_not_assisted h hc, Consistent, selected, masked_assistance]
    exact (if_neg hc).symm

/-- The manager is consistent after every run. -/
theorem consistent_after (calls : List (TriggerCall D)) :
    ((automaton promote c).after calls).Consistent :=
  Automaton.after_induction (A := fun _ => True) initial_consistent
    (fun _ call _ h => h.trigger call) fun _ _ => trivial

/-! ## Mode and isolation -/

/-- Two calls that may differ in the IMU packet only, and in that only when they are manual. -/
structure AgreeWhenAssisted (a b : TriggerCall D) : Prop where
  outOfRange : a.outOfRange = b.outOfRange
  rcRxPacket : a.rcRxPacket = b.rcRxPacket
  imuPacket : a.rcRxPacket.assisted → a.imuPacket = b.imuPacket

theorem isInStabilizeMode_after (calls : List (TriggerCall D)) (call : TriggerCall D) :
    ((automaton promote c).after (calls ++ [call])).isInStabilizeMode ↔
      call.rcRxPacket.assisted := by
  rw [Automaton.after_snoc]
  show (trigger promote c _ call).1.isInStabilizeMode = true ↔ _
  by_cases hc : call.rcRxPacket.assisted
  · rw [trigger_of_assisted (consistent_after calls) hc]
    simp [isInStabilizeMode, hc]
  · rw [trigger_of_not_assisted (consistent_after calls) hc]
    simp [isInStabilizeMode, hc]

theorem outputs_of_not_assisted (calls : List (TriggerCall D)) {call : TriggerCall D}
    (hc : ¬ call.rcRxPacket.assisted) :
    (automaton promote c).outputs (calls ++ [call]) =
      (automaton promote c).outputs calls ++
        [ManualAutopilot.trigger c.utility call.rcRxPacket] := by
  rw [Automaton.outputs_snoc]
  show _ ++ [(trigger promote c _ call).2] = _
  rw [trigger_of_not_assisted (consistent_after calls) hc]

/-- One call keeps two managers with equal stabilizer memories alike, whatever the IMU packet of a
manual call. -/
theorem trigger_agree (promote : FloatPattern → D) (c : AutopilotConfig D)
    {s t : AutopilotManager D} (hs : s.Consistent) (ht : t.Consistent)
    (hst : s.stabilizeAutopilot = t.stabilizeAutopilot) {a b : TriggerCall D}
    (h : AgreeWhenAssisted a b) :
    (trigger promote c s a).1.stabilizeAutopilot = (trigger promote c t b).1.stabilizeAutopilot ∧
      (trigger promote c s a).2 = (trigger promote c t b).2 := by
  obtain ⟨oor, rc, imu⟩ := a
  obtain ⟨oor', rc', imu'⟩ := b
  obtain ⟨rfl, rfl, himu⟩ : oor = oor' ∧ rc = rc' ∧ (rc.assisted → imu = imu') :=
    ⟨h.outOfRange, h.rcRxPacket, h.imuPacket⟩
  by_cases hc : rc.assisted
  · obtain rfl := himu hc
    rw [trigger_of_assisted hs hc, trigger_of_assisted ht hc, hst]
    exact ⟨rfl, rfl⟩
  · rw [trigger_of_not_assisted hs hc, trigger_of_not_assisted ht hc]
    exact ⟨hst, rfl⟩

/-- Runs that agree but for the IMU packets of manual calls have the same outputs. -/
theorem outputs_eq_of_agree {calls calls' : List (TriggerCall D)}
    (h : List.Forall₂ AgreeWhenAssisted calls calls') :
    (automaton promote c).outputs calls = (automaton promote c).outputs calls' := by
  refine Automaton.outputs_eq_of_rel
    (R := fun s t => s.Consistent ∧ t.Consistent ∧ s.stabilizeAutopilot = t.stabilizeAutopilot)
    ⟨initial_consistent, initial_consistent, rfl⟩ ?_ h
  rintro s t a b ⟨hs, ht, hst⟩ hab
  obtain ⟨hmemory, hout⟩ := trigger_agree promote c hs ht hst hab
  exact ⟨⟨hs.trigger a, ht.trigger b, hmemory⟩, hout⟩

/-- **Mode selection and isolation.** After every run the mode is the one the last packet's
assistance flag selects; a call without the flag returns the bound sticks; and the outputs of a
run do not depend on the IMU packets of its manual calls. -/
theorem mode_selection_and_isolation (promote : FloatPattern → D) (c : AutopilotConfig D) :
    (∀ (calls : List (TriggerCall D)) (call : TriggerCall D),
      (((automaton promote c).after (calls ++ [call])).isInStabilizeMode ↔
          call.rcRxPacket.state &&& 0x80 ≠ 0) ∧
        (((automaton promote c).after (calls ++ [call])).isInManualMode ↔
          call.rcRxPacket.state &&& 0x80 = 0) ∧
        (call.rcRxPacket.state &&& 0x80 = 0 →
          (automaton promote c).outputs (calls ++ [call]) =
            (automaton promote c).outputs calls ++
              [ManualAutopilot.trigger c.utility call.rcRxPacket])) ∧
      ∀ calls calls' : List (TriggerCall D), List.Forall₂ AgreeWhenAssisted calls calls' →
        (automaton promote c).outputs calls = (automaton promote c).outputs calls' := by
  refine ⟨fun calls call => ⟨isInStabilizeMode_after calls call, ?_, fun hc => ?_⟩,
    fun _ _ => outputs_eq_of_agree⟩
  · rw [isInManualMode_iff_not, isInStabilizeMode_after]
    exact not_not
  · exact outputs_of_not_assisted calls (not_not.mpr hc)

/-! ## User input during assistance -/

section UserInput

variable (promote : FloatPattern → D) (c : AutopilotConfig D)

/-- An assisted call honours the user: an axis whose user flag is set is the bound stick, and an
axis whose flag is clear is driven by its controller. -/
structure Honours (s : AutopilotManager D) (call : TriggerCall D) (out : ControlSurfacePacket) :
    Prop where
  roll : call.rcRxPacket.userRoll →
    out.aileronDeflection =
      c.utility.bindRcAileronDeflection call.rcRxPacket.aileronStickPosition
  pitch : call.rcRxPacket.userPitch →
    out.elevatorDeflection =
      c.utility.bindRcElevatorDeflection call.rcRxPacket.elevatorStickPosition
  rollFree : ¬ call.rcRxPacket.userRoll →
    out.aileronDeflection =
      (computeRollToAileronDeflection c.utility c.stabilize s.stabilizeAutopilot
        (promote call.imuPacket.gyroX) call.outOfRange).2
  pitchFree : ¬ call.rcRxPacket.userPitch →
    out.elevatorDeflection =
      c.utility.bindPidElevatorDeflection
        (computePitchToElevatorDeflection c.stabilize s.stabilizeAutopilot
          (promote call.imuPacket.gyroY) call.outOfRange).2

/-- Every assisted call of the run honours the user. -/
def NeverOverrides (calls : List (TriggerCall D)) : Prop :=
  ∀ pre call post, calls = pre ++ call :: post → call.rcRxPacket.assisted →
    Honours promote c ((automaton promote c).after pre) call
      (trigger promote c ((automaton promote c).after pre) call).2

/-- The packet asks for assistance without user input on either axis, or for none. -/
def NoUserInput (call : TriggerCall D) : Prop :=
  call.rcRxPacket.assisted → ¬ call.rcRxPacket.userRoll ∧ ¬ call.rcRxPacket.userPitch

instance (call : TriggerCall D) : Decidable (NoUserInput call) :=
  inferInstanceAs (Decidable (_ → _))

/-- An assisted call is driven by the controllers on both axes, whatever the user flags. -/
theorem assisted_axes {s : AutopilotManager D} (h : s.Consistent) (call : TriggerCall D)
    (hc : call.rcRxPacket.assisted) :
    (trigger promote c s call).2.aileronDeflection =
        (computeRollToAileronDeflection c.utility c.stabilize s.stabilizeAutopilot
          (promote call.imuPacket.gyroX) call.outOfRange).2 ∧
      (trigger promote c s call).2.elevatorDeflection =
        c.utility.bindPidElevatorDeflection
          (computePitchToElevatorDeflection c.stabilize s.stabilizeAutopilot
            (promote call.imuPacket.gyroY) call.outOfRange).2 := by
  rw [trigger_of_assisted h hc]
  exact ⟨rfl, rfl⟩

theorem neverOverrides_of_no_user_input {calls : List (TriggerCall D)}
    (h : ∀ call ∈ calls, NoUserInput call) : NeverOverrides promote c calls := by
  rintro pre call post rfl hc
  obtain ⟨hroll, hpitch⟩ := h call (by simp) hc
  obtain ⟨ha, he⟩ := assisted_axes promote c (consistent_after pre) call hc
  exact ⟨fun hr => absurd hr hroll, fun hp => absurd hp hpitch, fun _ => ha, fun _ => he⟩

/-- Two calls that may differ in the sticks only. -/
structure SameButSticks (a b : TriggerCall D) : Prop where
  outOfRange : a.outOfRange = b.outOfRange
  timestamp : a.rcRxPacket.timestamp = b.rcRxPacket.timestamp
  state : a.rcRxPacket.state = b.rcRxPacket.state
  imuPacket : a.imuPacket = b.imuPacket

/-- On neither axis are all sticks bound to one deflection. -/
def SticksMatter (u : AutopilotUtility) : Prop :=
  (∃ p q, u.bindRcAileronDeflection p ≠ u.bindRcAileronDeflection q) ∧
    ∃ p q, u.bindRcElevatorDeflection p ≠ u.bindRcElevatorDeflection q

omit [Double D] in
/-- One call of a run, with other sticks. -/
theorem forall₂_sameButSticks (pre post : List (TriggerCall D)) {a b : TriggerCall D}
    (h : SameButSticks a b) :
    List.Forall₂ SameButSticks (pre ++ a :: post) (pre ++ b :: post) := by
  have hrefl : ∀ l : List (TriggerCall D), List.Forall₂ SameButSticks l l :=
    fun l => List.forall₂_same.mpr fun _ _ => ⟨rfl, rfl, rfl, rfl⟩
  exact List.rel_append (hrefl pre) (List.Forall₂.cons h (hrefl post))

variable {promote c}

/-- An assisted call with user input is overridden for some position of the stick: the answer is
the same for all of them. -/
theorem no_user_input_of_neverOverrides (hu : SticksMatter c.utility)
    {pre post : List (TriggerCall D)} {call : TriggerCall D}
    (h : ∀ call', SameButSticks call call' → NeverOverrides promote c (pre ++ call' :: post)) :
    NoUserInput call := by
  obtain ⟨⟨p, q, hpq⟩, ⟨p', q', hpq'⟩⟩ := hu
  obtain ⟨outOfRange, ⟨timestamp, state, motor, aileron, elevator, rudder⟩, imu⟩ := call
  have hcons : ((automaton promote c).after pre).Consistent := consistent_after pre
  intro hc
  constructor
  · intro hroll
    -- every stick would be bound to the controller's output
    have hstick : ∀ stick, c.utility.bindRcAileronDeflection stick =
        (computeRollToAileronDeflection c.utility c.stabilize
          ((automaton promote c).after pre).stabilizeAutopilot (promote imu.gyroX)
          outOfRange).2 := by
      intro stick
      have hhonours := h ⟨outOfRange, ⟨timestamp, state, motor, stick, elevator, rudder⟩, imu⟩
        ⟨rfl, rfl, rfl, rfl⟩ pre _ post rfl hc
      have haxis := (assisted_axes promote c hcons
        ⟨outOfRange, ⟨timestamp, state, motor, stick, elevator, rudder⟩, imu⟩ hc).1
      exact (hhonours.roll hroll).symm.trans haxis
    exact hpq ((hstick p).trans (hstick q).symm)
  · intro hpitch
    have hstick : ∀ stick, c.utility.bindRcElevatorDeflection stick =
        c.utility.bindPidElevatorDeflection
          (computePitchToElevatorDeflection c.stabilize
            ((automaton promote c).after pre).stabilizeAutopilot (promote imu.gyroY)
            outOfRange).2 := by
      intro stick
      have hhonours := h ⟨outOfRange, ⟨timestamp, state, motor, aileron, stick, rudder⟩, imu⟩
        ⟨rfl, rfl, rfl, rfl⟩ pre _ post rfl hc
      have haxis := (assisted_axes promote c hcons
        ⟨outOfRange, ⟨timestamp, state, motor, aileron, stick, rudder⟩, imu⟩ hc).2
      exact (hhonours.pitch hpitch).symm.trans haxis
    exact hpq' ((hstick p').trans (hstick q').symm)

variable (promote c)

/-- **When stabilization leaves the pilot alone.** A run whose assisted calls carry no user input
flag never overrides the pilot, whatever the configuration; and unless all sticks are bound to one
deflection, these are the only flags for which no position of the sticks is overridden. -/
theorem neverOverrides_iff_no_user_input (calls : List (TriggerCall D)) :
    ((∀ call ∈ calls, NoUserInput call) → NeverOverrides promote c calls) ∧
      (SticksMatter c.utility →
        ((∀ calls', List.Forall₂ SameButSticks calls calls' → NeverOverrides promote c calls') ↔
          ∀ call ∈ calls, NoUserInput call)) := by
  refine ⟨neverOverrides_of_no_user_input promote c, fun hu => ⟨fun h call hmem => ?_, ?_⟩⟩
  · -- other sticks in this call alone
    obtain ⟨pre, post, rfl⟩ := List.append_of_mem hmem
    exact no_user_input_of_neverOverrides hu fun call' hcall' =>
      h _ (forall₂_sameButSticks pre post hcall')
  · intro h calls' hcalls
    apply neverOverrides_of_no_user_input
    intro call' hmem
    -- the flags of the two runs are the same
    obtain ⟨call, hcall, hsame⟩ : ∃ call ∈ calls, SameButSticks call call' := by
      obtain ⟨i, hi, rfl⟩ := List.mem_iff_getElem.mp hmem
      have hi' : i < calls.length := hcalls.length_eq.symm ▸ hi
      exact ⟨_, List.getElem_mem hi', hcalls.get hi' hi⟩
    have hfree := h call hcall
    unfold NoUserInput RcRxPacket.assisted RcRxPacket.userRoll RcRxPacket.userPitch at hfree ⊢
    rw [← hsame.state]
    exact hfree

end UserInput

/-- With the shipped limits a full stick is bound to the limit, so the flags decide: an assisted
call without user input is never overridden, and one with the roll flag is for some stick. -/
theorem neverOverrides_shipped :
    (∀ calls' : List (TriggerCall ℚ),
      List.Forall₂ SameButSticks [⟨fun _ _ => 0, { state := 0x80 }, {}⟩] calls' →
        NeverOverrides (fun _ => 0) AutopilotConfig.shipped calls') ∧
    ¬ ∀ calls' : List (TriggerCall ℚ),
      List.Forall₂ SameButSticks
        [⟨fun _ _ => 0, { state := 0x80 }, {}⟩, ⟨fun _ _ => 0, { state := 0x81 }, {}⟩] calls' →
        NeverOverrides (fun _ => 0) AutopilotConfig.shipped calls' := by
  have hsticks : SticksMatter AutopilotConfig.shipped.utility :=
    ⟨⟨0, 100, by decide⟩, ⟨0, 100, by decide⟩⟩
  constructor
  · refine ((neverOverrides_iff_no_user_input (fun _ => 0) AutopilotConfig.shipped
      [⟨fun _ _ => 0, { state := 0x80 }, {}⟩]).2 hsticks).mpr ?_
    intro call hmem
    rw [List.mem_singleton.mp hmem]
    exact fun _ => ⟨by decide, by decide⟩
  · intro h
    have hfree := ((neverOverrides_iff_no_user_input (fun _ => 0) AutopilotConfig.shipped
      [⟨fun _ _ => 0, { state := 0x80 }, {}⟩, ⟨fun _ _ => 0, { state := 0x81 }, {}⟩]).2
        hsticks).mp h ⟨fun _ _ => 0, { state := 0x81 }, {}⟩ (by simp) (by decide)
    exact hfree.1 (by decide)

/-- The aileron stick at half travel, with the assistance and the roll flag set, in level flight:
the stick asks for a deflection of 17 and the controller's 0 is returned. -/
theorem overrides_half_stick :
    ¬ NeverOverrides (fun _ => 0) AutopilotConfig.shipped
      [⟨fun _ _ => 0, { state := 0x81, aileronStickPosition := 50 }, {}⟩] := by
  intro h
  have hroll := (h [] _ [] rfl (by decide)).roll (by decide)
  revert hroll
  decide +kernel

end AutopilotManager

end RcPlane
