import RcPlane.Autopilot.ModeSelection
import RcPlane.Autopilot.RollController
import RcPlane.Som.Environment

/-!
# Timed-out reads

A read that times out reports the default packet, which `runMainLoop` hands to the autopilot like
any other: the default `RcRxPacket` asks for the manual autopilot, and the default `ImuPacket` is a
measurement of level flight. What an iteration with such a read leaves as it was depends on which
read it is, on the mode, and on the memory of the controllers.

## Main definitions

* `Iteration.TimedOut`: one of the two reads of the iteration timed out
* `Som.managerAfter`, `Som.receivedCalls`: the autopilot after some iterations, and the calls of
  those iterations whose packets were both received
* `AtRest`: a measurement of level flight leaves the controllers as they are
* `Settled`: the controllers have nothing left to do
* `Som.Harmless`, `Som.DisturbedUnless`: the condition on an iteration with a timeout, and that
  it is exact

## Main results

* `Som.defaults_of_run`: what a timed-out read reports
* `Som.timeouts_of_run`: a timeout leaves mode and memory as they were exactly when it is harmless,
  and both depend on the packets received alone exactly when all timeouts are
* `atRest_iff`: over exact numbers, controllers that have settled are those at rest
-/

namespace RcPlane

open Foundation

/-! ## Default packets -/

/-- One of the two reads of the iteration timed out. -/
def Iteration.TimedOut (i : Iteration) : Prop :=
  i.rcRx.didTimeout = true ∨ i.imu.didTimeout = true

instance (i : Iteration) : Decidable i.TimedOut := inferInstanceAs (Decidable (_ ∨ _))

/-- A read that timed out reports the default packet. -/
def ReadResult.Defaults {t : PacketType} (r : ReadResult t) : Prop :=
  r.didTimeout = true → r.packet = t.default

theorem ReadResult.defaults_completeRead (t : PacketType) (s : SerialController) :
    (s.completeRead t).1.Defaults := by
  intro h
  cases h

theorem ReadResult.defaults_timeout (t : PacketType) : ({} : ReadResult t).Defaults := fun _ => rfl

/-- The default packet does not ask for assistance. -/
theorem not_assisted_default : ¬ ({} : RcRxPacket).assisted := by decide

namespace Som

variable {D : Type} {c : SomConfig D} {s s' : Som D}

/-- The reads of all iterations, the current one included, report default packets if they time
out. -/
structure Defaults (s : Som D) : Prop where
  iterations : ∀ i ∈ s.iterations, i.rcRx.Defaults ∧ i.imu.Defaults
  current : ∀ rcRx need, s.phase = .reading (.imu rcRx) need → rcRx.Defaults

theorem defaults_boot [Double D] : Defaults (boot : Som D) where
  iterations i hi := by cases hi
  current rcRx need h := by cases h

theorem Defaults.finishRead [Double D] (h : Defaults s) {r : SomRead} {need : ℕ}
    (hphase : s.phase = .reading r need) {result : ReadResult r.type} (hresult : result.Defaults) :
    Defaults (finishRead c s r result) := by
  cases r with
  | handshake attempt =>
    show Defaults (finishHandshakeRead c s attempt result)
    -- what follows is another attempt, or none
    have hattempt : ∀ rcRx need,
        attemptPhase c (attempt + 1) = .reading (.imu rcRx) need → rcRx.Defaults := by
      intro rcRx need heq
      unfold attemptPhase at heq
      split_ifs at heq
      cases heq
    unfold finishHandshakeRead
    split_ifs
    · exact ⟨h.iterations, hattempt⟩
    · exact ⟨h.iterations, fun _ _ heq => by cases heq⟩
    · exact ⟨h.iterations, hattempt⟩
  | rcRx =>
    refine ⟨h.iterations, fun rcRx need heq => ?_⟩
    cases heq
    exact hresult
  | imu rcRx =>
    -- the iteration takes over the result of its first read
    refine ⟨fun i hi => ?_, fun _ _ heq => by cases heq⟩
    rcases List.mem_append.mp hi with hi | hi
    · exact h.iterations i hi
    · obtain rfl := List.mem_singleton.mp hi
      exact ⟨h.current rcRx need hphase, hresult⟩

theorem Defaults.finishWrite (h : Defaults s) (w : SomWrite) (written : Bool) :
    Defaults (finishWrite c s w written) := by
  cases w with
  | handshake =>
    cases written with
    | false => exact ⟨h.iterations, fun _ _ heq => by cases heq⟩
    | true =>
      refine ⟨h.iterations, fun rcRx need heq => ?_⟩
      change attemptPhase c 0 = _ at heq
      unfold attemptPhase at heq
      split_ifs at heq
      cases heq
  | controlSurface imuPacket => exact ⟨h.iterations, fun _ _ heq => by cases heq⟩

/-- Every step keeps to the default packets. -/
theorem defaults_invariant [Double D] (c : SomConfig D) :
    Invariant c (fun _ => True) Defaults where
  send {s s' b} h hstep := by
    obtain ⟨w, left, -, rfl⟩ := send_eq_some.mp hstep
    exact ⟨h.iterations, fun _ _ heq => by cases heq⟩
  receive {s s' piece} h hstep := by
    rcases receive_eq_some hstep with ⟨hphase, -, rfl⟩ | ⟨r, need, hphase, -, rfl⟩
    · exact ⟨h.iterations, h.current⟩
    · refine ⟨h.iterations, fun rcRx need' heq => ?_⟩
      obtain ⟨rfl, -⟩ := SomPhase.reading.inj heq
      exact h.current rcRx need hphase
  done {s s'} h hstep := by
    rcases done_eq_some hstep with ⟨size, -, -, rfl⟩ | ⟨w, -, rfl⟩ | ⟨r, hphase, rfl⟩ | ⟨-, rfl⟩
    · exact ⟨h.iterations, fun _ _ heq => by cases heq⟩
    · exact h.finishWrite w true
    · have hs : Defaults { s with
          serial := (s.serial.completeRead r.type).2
          consumed := s.consumed ++ s.serial.streamBuffer.take r.type.codec.size } :=
        ⟨h.iterations, h.current⟩
      exact hs.finishRead hphase (ReadResult.defaults_completeRead _ _)
    · exact ⟨h.iterations, fun _ _ heq => by cases heq⟩
  timeout {s s' o} _ h hstep := by
    rcases timeout_eq_some hstep with ⟨-, -, rfl⟩ | ⟨r, need, -, hphase, rfl⟩ |
      ⟨w, b, left, -, -, rfl⟩
    · exact ⟨h.iterations, fun _ _ heq => by cases heq⟩
    · exact h.finishRead hphase (ReadResult.defaults_timeout _)
    · exact h.finishWrite w false

/-- In every run, a timed-out read of the main loop reports the default packet. -/
theorem defaults_of_run [Double D] {acts : List SomAction}
    (h : run (step c) boot acts = some s) : Defaults s :=
  (defaults_invariant c).of_run defaults_boot h

end Som

/-! ## Controllers at rest -/

section AtRest

variable {D : Type} [Double D] (promote : FloatPattern → D) (u : AutopilotUtility)
  (c : StabilizeConfig D)

/-- A measurement of level flight, which the default `ImuPacket` is, leaves the memory of the
controllers as it is: the errors stored are those of that measurement, and the derivative and the
two integrals are where their updates keep them. -/
structure AtRest (outOfRange : Conversion → D → Int8) (m : StabilizeMemory D) : Prop where
  prevRollError : m.prevRollError = rollError (promote 0)
  prevPitchError : m.prevPitchError = pitchError (promote 0)
  rollDerivativeError : m.rollDerivativeError = rollDerivative c m (promote 0)
  rollIntegralError : m.rollIntegralError =
    rollIntegral m (promote 0) + timestamp / c.ki *
      (rollOutput u c m (promote 0) - rollUnsaturatedOutput c m (promote 0))
  pitchIntegralError : m.pitchIntegralError = pitchIntegral c m (promote 0) outOfRange

/-- The controllers are at rest exactly when a call with the default `ImuPacket` leaves them as
they are. -/
theorem trigger_default_eq_iff (m : StabilizeMemory D) (outOfRange : Conversion → D → Int8)
    (rcRxPacket : RcRxPacket) :
    (StabilizeAutopilot.trigger promote u c m ⟨outOfRange, rcRxPacket, {}⟩).1 = m ↔
      AtRest promote u c outOfRange m := by
  obtain ⟨prevRoll, prevPitch, derivative, rollInt, pitchInt⟩ := m
  constructor
  · intro h
    obtain ⟨hroll, hpitch, hderivative, hrollInt, hpitchInt⟩ := StabilizeMemory.mk.inj h
    exact ⟨hroll.symm, hpitch.symm, hderivative.symm, hrollInt.symm, hpitchInt.symm⟩
  · rintro ⟨hroll, hpitch, hderivative, hrollInt, hpitchInt⟩
    exact StabilizeMemory.mk.injEq .. ▸
      ⟨hroll.symm, hpitch.symm, hderivative.symm, hrollInt.symm, hpitchInt.symm⟩

end AtRest

section Rational

variable {promote : FloatPattern → ℚ} {u : AutopilotUtility} {c : StabilizeConfig ℚ}
  {m : StabilizeMemory ℚ}

/-- In level flight, and with no error stored, the derivative keeps to its filter. -/
theorem rollDerivative_level (h : m.prevRollError = 0) :
    rollDerivative c m 0 = rollPole c * m.rollDerivativeError := by
  rw [rollDerivative_eq, h]
  ring

/-- Only no derivative at all is kept by the filter. -/
theorem eq_rollPole_mul_iff (htau : 2 * c.tau + timestamp ≠ 0) (x : ℚ) :
    x = rollPole c * x ↔ x = 0 := by
  constructor
  · intro h
    rw [rollPole, div_mul_eq_mul_div, eq_div_iff htau] at h
    have hprod : timestamp * x = 0 := by linarith
    exact (mul_eq_zero.mp hprod).resolve_left timestamp_pos.ne'
  · rintro rfl
    ring

/-- In level flight, and with no error and no derivative stored, the output is the integral's. -/
theorem rollUnsaturatedOutput_level (h : m.prevRollError = 0) (hd : m.rollDerivativeError = 0) :
    rollUnsaturatedOutput c m 0 = c.ki * m.rollIntegralError := by
  rw [rollUnsaturatedOutput_eq, rollIntegral_eq, rollDerivative_level h, h, hd]
  ring

/-- Only values within the limit are left alone. -/
theorem bindPidAileronDeflection_eq_self_iff (x : ℚ) :
    u.bindPidAileronDeflection x = x ↔ |x| ≤ u.maxAileronDeflection.toInt := by
  unfold AutopilotUtility.bindPidAileronDeflection
  rw [abs_le]
  push_cast
  split_ifs with hhigh hlow
  · exact iff_of_false hhigh.ne fun h => hhigh.not_ge h.2
  · exact iff_of_false hlow.ne' fun h => hlow.not_ge h.1
  · exact iff_of_true rfl ⟨not_lt.mp hlow, not_lt.mp hhigh⟩

/-- An `int8_t` is narrowed to itself. -/
theorem narrow_toInt (outOfRange : ℚ → Int8) (k : Int8) :
    narrow outOfRange ((k.toInt : ℤ) : ℚ) = k := by
  have hlow : (-128 : ℚ) ≤ (k.toInt : ℚ) := by exact_mod_cast Int8.le_toInt k
  have hhigh : (k.toInt : ℚ) ≤ 127 := by exact_mod_cast Int8.toInt_le k
  apply Int8.toInt_inj.mp
  rw [narrow_of_mem hlow hhigh, truncate_intCast]

variable (u c) in
/-- The controllers have nothing left to do: no error and no derivative are stored, the roll
integral by itself does not drive the output past the limit, and the pitch integral is an `int8_t`
that the limiter keeps. -/
structure Settled (outOfRange : Conversion → ℚ → Int8) (m : StabilizeMemory ℚ) : Prop where
  prevRollError : m.prevRollError = 0
  prevPitchError : m.prevPitchError = 0
  rollDerivativeError : m.rollDerivativeError = 0
  rollIntegralError : |c.ki * m.rollIntegralError| ≤ u.maxAileronDeflection.toInt
  pitchIntegralError : ∃ k : Int8, m.pitchIntegralError = k.toInt ∧
    bindIntegralError c outOfRange k = k

/-- The limiter's own results are the integrals that it keeps. -/
theorem pitchIntegral_level_eq_iff (outOfRange : Conversion → ℚ → Int8) :
    m.pitchIntegralError = pitchIntegral c m 0 outOfRange ↔
      ∃ k : Int8, m.pitchIntegralError = k.toInt ∧ bindIntegralError c outOfRange k = k := by
  have hlimiter : pitchIntegral c m 0 outOfRange =
      (bindIntegralError c outOfRange
        (narrow (outOfRange .integralArgument) m.pitchIntegralError)).toInt := by
    rw [pitchIntegral, pitchError, sub_zero, add_zero]
  rw [hlimiter]
  constructor
  · intro h
    refine ⟨_, h, ?_⟩
    have hnarrow := narrow_toInt (outOfRange .integralArgument)
      (bindIntegralError c outOfRange
        (narrow (outOfRange .integralArgument) m.pitchIntegralError))
    rw [← h] at hnarrow
    exact congrArg _ hnarrow.symm
  · rintro ⟨k, hk, hkept⟩
    rw [hk, narrow_toInt, hkept]

/-- **Controllers at rest.** Over exact numbers, with divisors that are not zero, the controllers
are at rest exactly when they have nothing left to do. -/
theorem atRest_iff (hpromote : promote 0 = 0) (hki : c.ki ≠ 0) (htau : 2 * c.tau + timestamp ≠ 0)
    (outOfRange : Conversion → ℚ → Int8) :
    AtRest promote u c outOfRange m ↔ Settled u c outOfRange m := by
  have hroll : rollError (promote 0) = 0 := by rw [hpromote, rollError_eq, neg_zero]
  have hpitch : pitchError (promote 0) = 0 := by
    rw [hpromote]
    exact zero_sub_zero
  -- the feedback into the roll integral vanishes exactly when nothing is cut off
  have hfeedback : m.prevRollError = 0 → m.rollDerivativeError = 0 →
      (m.rollIntegralError = rollIntegral m 0 + timestamp / c.ki *
          (rollOutput u c m 0 - rollUnsaturatedOutput c m 0) ↔
        |c.ki * m.rollIntegralError| ≤ u.maxAileronDeflection.toInt) := by
    intro hprev hderivative
    have hne : timestamp / c.ki ≠ 0 := div_ne_zero timestamp_pos.ne' hki
    rw [rollOutput, rollUnsaturatedOutput_level hprev hderivative, rollIntegral_eq, hprev, neg_zero,
      add_zero, mul_zero, add_zero, eq_comm, add_eq_left, mul_eq_zero, or_iff_right hne,
      sub_eq_zero, bindPidAileronDeflection_eq_self_iff]
  constructor
  · rintro ⟨hprevRoll, hprevPitch, hderivative, hrollIntegral, hpitchIntegral⟩
    rw [hroll] at hprevRoll
    rw [hpromote, rollDerivative_level hprevRoll, eq_rollPole_mul_iff htau] at hderivative
    rw [hpromote] at hrollIntegral hpitchIntegral
    exact ⟨hprevRoll, hprevPitch.trans hpitch, hderivative,
      (hfeedback hprevRoll hderivative).mp hrollIntegral,
      (pitchIntegral_level_eq_iff outOfRange).mp hpitchIntegral⟩
  · rintro ⟨hprevRoll, hprevPitch, hderivative, hrollIntegral, hpitchIntegral⟩
    refine ⟨hprevRoll.trans hroll.symm, hprevPitch.trans hpitch.symm, ?_, ?_, ?_⟩
    · rw [hpromote, rollDerivative_level hprevRoll]
      exact (eq_rollPole_mul_iff htau _).mpr hderivative
    · rw [hpromote]
      exact (hfeedback hprevRoll hderivative).mpr hrollIntegral
    · rw [hpromote]
      exact (pitchIntegral_level_eq_iff outOfRange).mpr hpitchIntegral

end Rational

namespace AutopilotManager

variable {D : Type}

/-- The mode and the memory of the controllers. -/
def modeAndMemory (s : AutopilotManager D) : Autopilot × StabilizeMemory D :=
  (s.autopilot, s.stabilizeAutopilot)

variable [Double D] {promote : FloatPattern → D} {c : AutopilotConfig D}

/-- The mode and the memory after a call depend on nothing else of the manager. -/
theorem modeAndMemory_trigger_congr {s t : AutopilotManager D} (hs : s.Consistent)
    (ht : t.Consistent) (h : s.modeAndMemory = t.modeAndMemory) (call : TriggerCall D) :
    (trigger promote c s call).1.modeAndMemory = (trigger promote c t call).1.modeAndMemory := by
  have hmemory : s.stabilizeAutopilot = t.stabilizeAutopilot := congrArg Prod.snd h
  by_cases hc : call.rcRxPacket.assisted
  · rw [trigger_of_assisted hs hc, trigger_of_assisted ht hc, hmemory]
  · rw [trigger_of_not_assisted hs hc, trigger_of_not_assisted ht hc, hmemory]

end AutopilotManager

namespace Som

/-! ## Iterations with a timeout -/

section Iterations

variable {D : Type} [Double D] (c : SomConfig D)

/-- The autopilot after some iterations. -/
def managerAfter (iterations : List Iteration) : AutopilotManager D :=
  (AutopilotManager.automaton c.promote c.autopilot).after (calls c iterations)

/-- The calls of the iterations both of whose packets were received. -/
def receivedCalls (iterations : List Iteration) : List (TriggerCall D) :=
  (iterations.mapIdx fun n i =>
    if i.TimedOut then [] else [⟨c.outOfRange n, i.rcRx.packet, i.imu.packet⟩]).flatten

/-- The iteration leaves mode and memory as the iterations before it left them. -/
def Undisturbed (before : List Iteration) (i : Iteration) : Prop :=
  (managerAfter c (before ++ [i])).modeAndMemory = (managerAfter c before).modeAndMemory

/-- If the first read timed out, the manual autopilot was in use. If the second one alone did, the
packet received selects the autopilot that was in use, and if this is the stabilize autopilot, its
controllers were at rest in the given sense. -/
def Harmless (rest : (Conversion → D → Int8) → StabilizeMemory D → Prop)
    (before : List Iteration) (i : Iteration) : Prop :=
  if i.rcRx.didTimeout then (managerAfter c before).isInManualMode = true
  else
    (i.rcRx.packet.assisted ↔ (managerAfter c before).isInStabilizeMode) ∧
      (i.rcRx.packet.assisted →
        rest (c.outOfRange before.length) (managerAfter c before).stabilizeAutopilot)

/-- In some iterations, one with a timeout leaves mode and memory as they were exactly when it is
harmless; and mode and memory are at all times those that the packets received lead to exactly
when all iterations with a timeout are. -/
structure DisturbedUnless (harmless : List Iteration → Iteration → Prop)
    (iterations : List Iteration) : Prop where
  each : ∀ before i after, iterations = before ++ i :: after → i.TimedOut →
    (Undisturbed c before i ↔ harmless before i)
  all : (∀ before after, iterations = before ++ after →
      (managerAfter c before).modeAndMemory =
        ((AutopilotManager.automaton c.promote c.autopilot).after
          (receivedCalls c before)).modeAndMemory) ↔
    ∀ before i after, iterations = before ++ i :: after → i.TimedOut → harmless before i

variable {c}

theorem managerAfter_snoc (before : List Iteration) (i : Iteration) :
    managerAfter c (before ++ [i]) =
      (AutopilotManager.trigger c.promote c.autopilot (managerAfter c before)
        ⟨c.outOfRange before.length, i.rcRx.packet, i.imu.packet⟩).1 := by
  rw [managerAfter, calls_snoc, Automaton.after_snoc]
  rfl

theorem consistent_managerAfter (iterations : List Iteration) :
    (managerAfter c iterations).Consistent :=
  AutopilotManager.consistent_after _

/-- A call that is not assisted leaves mode and memory alone exactly in manual mode. -/
theorem undisturbed_iff_of_not_assisted {before : List Iteration} {i : Iteration}
    (h : ¬ i.rcRx.packet.assisted) :
    Undisturbed c before i ↔ (managerAfter c before).isInManualMode := by
  rw [Undisturbed, managerAfter_snoc,
    AutopilotManager.trigger_of_not_assisted (consistent_managerAfter before) h]
  simp [AutopilotManager.modeAndMemory, AutopilotManager.isInManualMode, eq_comm]

/-- An assisted call with the default `ImuPacket` leaves mode and memory alone exactly in
stabilize mode with the controllers at rest. -/
theorem undisturbed_iff_of_assisted {before : List Iteration} {i : Iteration}
    (h : i.rcRx.packet.assisted) (himu : i.imu.packet = {}) :
    Undisturbed c before i ↔ (managerAfter c before).isInStabilizeMode ∧
      AtRest c.promote c.autopilot.utility c.autopilot.stabilize (c.outOfRange before.length)
        (managerAfter c before).stabilizeAutopilot := by
  rw [Undisturbed, managerAfter_snoc,
    AutopilotManager.trigger_of_assisted (consistent_managerAfter before) h, himu,
    ← trigger_default_eq_iff _ _ _ _ _ i.rcRx.packet]
  simp [AutopilotManager.modeAndMemory, AutopilotManager.isInStabilizeMode, eq_comm]

/-- **One iteration with a timeout.** It leaves mode and memory as they were exactly when it is
harmless. -/
theorem undisturbed_iff_harmless {before : List Iteration} {i : Iteration} (hi : i.TimedOut)
    (hrcRx : i.rcRx.Defaults) (himu : i.imu.Defaults) :
    Undisturbed c before i ↔ Harmless c
      (AtRest c.promote c.autopilot.utility c.autopilot.stabilize) before i := by
  by_cases htimeout : i.rcRx.didTimeout = true
  · -- the default packet asks for the manual autopilot
    have hpacket : i.rcRx.packet = {} := hrcRx htimeout
    have hnot : ¬ i.rcRx.packet.assisted := hpacket ▸ not_assisted_default
    rw [undisturbed_iff_of_not_assisted hnot, Harmless, if_pos htimeout]
  · -- the first packet was received, and decides whether the second one is used
    have hpacket : i.imu.packet = {} := himu (hi.resolve_left htimeout)
    rw [Harmless, if_neg htimeout]
    by_cases hc : i.rcRx.packet.assisted
    · rw [undisturbed_iff_of_assisted hc hpacket]
      simp [hc]
    · rw [undisturbed_iff_of_not_assisted hc, AutopilotManager.isInManualMode_iff_not]
      simp [hc]

/-! ## Whole runs -/

omit [Double D] in
theorem receivedCalls_snoc_of_timedOut (before : List Iteration) {i : Iteration} (h : i.TimedOut) :
    receivedCalls c (before ++ [i]) = receivedCalls c before := by
  simp [receivedCalls, List.mapIdx_concat, h]

omit [Double D] in
theorem receivedCalls_snoc_of_received (before : List Iteration) {i : Iteration}
    (h : ¬ i.TimedOut) :
    receivedCalls c (before ++ [i]) = receivedCalls c before ++
      [⟨c.outOfRange before.length, i.rcRx.packet, i.imu.packet⟩] := by
  simp [receivedCalls, List.mapIdx_concat, h]

/-- Mode and memory are at all times those that the packets received lead to exactly when no
iteration with a timeout disturbs them. -/
theorem depends_on_received_iff (iterations : List Iteration) :
    (∀ before after, iterations = before ++ after →
      (managerAfter c before).modeAndMemory =
        ((AutopilotManager.automaton c.promote c.autopilot).after
          (receivedCalls c before)).modeAndMemory) ↔
      ∀ before i after, iterations = before ++ i :: after → i.TimedOut →
        Undisturbed c before i := by
  constructor
  · intro h before i after hiterations hi
    have hbefore := h before (i :: after) hiterations
    have hnext := h (before ++ [i]) after (by simp [hiterations])
    -- the iteration adds nothing to the packets received
    rw [receivedCalls_snoc_of_timedOut before hi] at hnext
    exact hnext.trans hbefore.symm
  · intro h before
    induction before using List.reverseRecOn with
    | nil => exact fun _ _ => rfl
    | append_singleton before i ih =>
      intro after hiterations
      have hiterations' : iterations = before ++ i :: after := by simp [hiterations]
      have hbefore := ih (i :: after) hiterations'
      by_cases hi : i.TimedOut
      · rw [receivedCalls_snoc_of_timedOut before hi]
        exact (h before i after hiterations' hi).trans hbefore
      · -- both runs take the same call next
        rw [receivedCalls_snoc_of_received before hi, Automaton.after_snoc, managerAfter_snoc]
        exact AutopilotManager.modeAndMemory_trigger_congr (consistent_managerAfter before)
          (AutopilotManager.consistent_after _) hbefore _

/-- The autopilot of the SoM is the one that its iterations lead to. -/
theorem autopilotManager_of_run {acts : List SomAction} {s : Som D}
    (h : run (step c) boot acts = some s) :
    s.controller.autopilotManager = managerAfter c s.iterations :=
  ((triggered_invariant c).of_run ⟨rfl, rfl⟩ h).manager

/-- In every arithmetic, an iteration is harmless when a measurement of level flight leaves the
controllers as they are. -/
theorem disturbed_of_run {acts : List SomAction} {s : Som D}
    (h : run (step c) boot acts = some s) :
    DisturbedUnless c (Harmless c (AtRest c.promote c.autopilot.utility c.autopilot.stabilize))
      s.iterations := by
  have hone : ∀ before i after, s.iterations = before ++ i :: after → i.TimedOut →
      (Undisturbed c before i ↔ Harmless c
        (AtRest c.promote c.autopilot.utility c.autopilot.stabilize) before i) := by
    intro before i after hiterations hi
    have hmem : i ∈ s.iterations := by simp [hiterations]
    obtain ⟨hrcRx, himu⟩ := (defaults_of_run h).iterations i hmem
    exact undisturbed_iff_harmless hi hrcRx himu
  refine ⟨hone, ?_⟩
  rw [depends_on_received_iff]
  constructor
  · intro hall before i after hiterations hi
    exact (hone before i after hiterations hi).mp (hall before i after hiterations hi)
  · intro hall before i after hiterations hi
    exact (hone before i after hiterations hi).mpr (hall before i after hiterations hi)

end Iterations

end Som

end RcPlane
