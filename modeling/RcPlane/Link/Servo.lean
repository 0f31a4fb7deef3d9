import RcPlane.Autopilot.Envelope
import RcPlane.Link.Startup
import RcPlane.Mcu.StickPath

/-!
# From the receiver to the servo

At the end of an iteration `loop` writes the aileron deflection of `csPacket`, shifted by 115, to
its output pin. The deflection has been around the whole system: the pulse width is scaled and put
into a packet, the SoM's autopilot binds the stick or stabilizes the roll angle, and the answer
comes back. Without timeouts every write is decided by the inputs of its own iteration, and in
manual mode by the pulse width alone.

## Main definitions

* `servoDuty`, `Mcu.servo`: the value written in an iteration, and all of them
* `loopSamples`: the packets of the iterations, from what they read

## Main results

* `Link.servo_of_boot`: the servo along every run from power-on in which nothing times out
-/

namespace RcPlane

open Foundation

/-- The value that `loop` writes to its output pin, in `int`. -/
def servoDuty (csPacket : ControlSurfacePacket) : ℤ := csPacket.aileronDeflection.toInt + 115

/-- Every value written so far, one for each iteration that is over. -/
def Mcu.servo (m : Mcu) : List ℤ := m.rounds.map fun r => servoDuty r.after

/-- The packets that the iterations of `loop` build from what they read. -/
def loopSamples (inputs : ℕ → LoopInput) : Samples :=
  fun n => ((inputs n).rcRxPacket, (inputs n).imuPacket)

/-- The assistance flag of a packet is that of the assistance pulse, whatever the sticks are. -/
theorem assisted_rcRxPacket_iff (i : LoopInput) :
    i.rcRxPacket.assisted ↔ 1600 < i.assistance := by
  show ((if 1600 < i.assistance then kASSISTANCE_FLAG else 0x0) |||
    (if has_user_input (deflectionStick i.aileron) then kUSER_ROLL else 0x0) |||
    (if has_user_input (deflectionStick i.elevator) then kUSER_PITCH else 0x0)) &&&
      kASSISTANCE_FLAG ≠ 0 ↔ _
  by_cases hassistance : 1600 < i.assistance
  · rw [if_pos hassistance, iff_true_right hassistance]
    split_ifs <;> decide
  · rw [if_neg hassistance, iff_false_right hassistance]
    split_ifs <;> decide

/-! ## Nominal pulses -/

/-- The pulses of a nominal stick wrap at neither end, for any limit. -/
theorem deflectionWindow_of_nominal {limit : Int8} (hlimit : 0 ≤ limit.toInt) {pulse : UInt32}
    (hlower : 1000 ≤ pulse.toNat) (hupper : pulse.toNat ≤ 2000) : DeflectionWindow limit pulse := by
  have hb := (int8_toInt_bounds limit).2
  have hstick : -100 ≤ ((pulse.toNat : ℤ) - 1500).tdiv 5 ∧
      ((pulse.toNat : ℤ) - 1500).tdiv 5 ≤ 100 := by
    rcases le_or_gt 1500 pulse.toNat with hp | hp
    · rw [tdiv_of_nonneg (by omega)]
      omega
    · rw [tdiv_of_nonpos (by omega)]
      omega
  refine ⟨by omega, by omega, ?_, ?_⟩
  · have hlow : -100 * limit.toInt ≤ ((pulse.toNat : ℤ) - 1500).tdiv 5 * limit.toInt :=
      mul_le_mul_of_nonneg_right hstick.1 hlimit
    omega
  · have hhigh : ((pulse.toNat : ℤ) - 1500).tdiv 5 * limit.toInt ≤ 100 * limit.toInt :=
      mul_le_mul_of_nonneg_right hstick.2 hlimit
    omega

theorem abs_deflection_of_nominal {limit : Int8} (hlimit : 0 ≤ limit.toInt) {pulse : UInt32}
    (hlower : 1000 ≤ pulse.toNat) (hupper : pulse.toNat ≤ 2000) :
    |(bindRcDeflection limit (deflectionStick pulse)).toInt| ≤ limit.toInt := by
  have hwindow := deflectionWindow_of_nominal hlimit hlower hupper
  rw [abs_bindRcDeflection_le_iff hlimit, DeflectionFits, deflectionStick_of_window hwindow]
  left
  have hstick : |((pulse.toNat : ℤ) - 1500).tdiv 5| ≤ 100 := by
    rw [abs_le]
    rcases le_or_gt 1500 pulse.toNat with hp | hp
    · rw [tdiv_of_nonneg (by omega)]
      omega
    · rw [tdiv_of_nonpos (by omega)]
      omega
  have hle := mul_nonneg (sub_nonneg.mpr hstick) hlimit
  linarith

/-! ## The servo -/

namespace Link

variable {inputs : ℕ → LoopInput} {c : SomConfig ℚ} {acts : List Action} {t : Link ℚ}

/-- The answer to a call of the loop is given in the state that the calls before it lead to. -/
theorem getElem?_outputs_loopCalls {D : Type} [Double D] (samples : Samples) (c : SomConfig D)
    {k n : ℕ} (hk : k < n) :
    ((AutopilotManager.automaton c.promote c.autopilot).outputs (loopCalls samples c n))[k]? =
      some (AutopilotManager.trigger c.promote c.autopilot
        ((AutopilotManager.automaton c.promote c.autopilot).after (loopCalls samples c k))
        ⟨c.outOfRange k, (samples k).1, (samples k).2⟩).2 := by
  have hlen : (loopCalls samples c k).length = k := by simp [loopCalls]
  obtain ⟨rest, hsplit⟩ : ∃ rest, loopCalls samples c n =
      loopCalls samples c k ++ ⟨c.outOfRange k, (samples k).1, (samples k).2⟩ :: rest := by
    have hn : n = k + ((n - k - 1) + 1) := by omega
    rw [loopCalls, hn, List.range_add, List.map_append, List.range_succ_eq_map, List.map_cons,
      List.map_cons]
    exact ⟨_, rfl⟩
  have hanswer := Automaton.getElem?_outputs (AutopilotManager.automaton c.promote c.autopilot)
    (loopCalls samples c k) ⟨c.outOfRange k, (samples k).1, (samples k).2⟩ rest
  rw [hlen, ← hsplit] at hanswer
  exact hanswer

/-- Every value written is decided by the inputs of its own iteration and the autopilot's memory. -/
theorem duty_of_boot (hc : Fits c)
    (h : run (step (loopSamples inputs) c) boot acts = some t) (hno : ∀ a ∈ acts, ¬ a.isTimeout)
    {k : ℕ} {duty : ℤ} (hduty : t.mcu.servo[k]? = some duty) :
    ∃ s : AutopilotManager ℚ, s.Consistent ∧
      duty = servoDuty (AutopilotManager.trigger c.promote c.autopilot s
        ⟨c.outOfRange k, (inputs k).rcRxPacket, (inputs k).imuPacket⟩).2 := by
  have happlied := (lockstep_of_boot hc h hno).2.2.1
  obtain ⟨r, hr, rfl⟩ : ∃ r, t.mcu.rounds[k]? = some r ∧ servoDuty r.after = duty := by
    rw [Mcu.servo, List.getElem?_map, Option.map_eq_some_iff] at hduty
    exact hduty
  have hk : k < t.mcu.rounds.length := (List.getElem?_eq_some_iff.mp hr).1
  have hafter := congrArg (·[k]?) happlied
  rw [List.getElem?_map, hr] at hafter
  have hanswer := getElem?_outputs_loopCalls (loopSamples inputs) c hk
  exact ⟨_, AutopilotManager.consistent_after _,
    congrArg servoDuty (Option.some.inj (hafter.trans hanswer))⟩

/-- **The servo.** In every run from power-on in which nothing times out, with limits and divisors
that are valid: a nominal aileron pulse leaves the value within the limit around 115, in either
mode; in manual mode the value is that of the pulse; and of two manual iterations the one with the
longer pulse writes no smaller value. -/
theorem servo_of_boot (hc : Fits c) (hvalid : PidValid c.autopilot)
    (h : run (step (loopSamples inputs) c) boot acts = some t)
    (hno : ∀ a ∈ acts, ¬ a.isTimeout) :
    (∀ (k : ℕ) (duty : ℤ), t.mcu.servo[k]? = some duty → 1000 ≤ (inputs k).aileron.toNat →
      (inputs k).aileron.toNat ≤ 2000 →
        |duty - 115| ≤ c.autopilot.utility.maxAileronDeflection.toInt) ∧
    (∀ (k : ℕ) (duty : ℤ), t.mcu.servo[k]? = some duty → ¬ 1600 < (inputs k).assistance →
      DeflectionWindow c.autopilot.utility.maxAileronDeflection (inputs k).aileron →
        duty = 115 + (((((inputs k).aileron.toNat : ℤ) - 1500).tdiv 5 + 100) *
          c.autopilot.utility.maxAileronDeflection.toInt).tdiv 100 -
            c.autopilot.utility.maxAileronDeflection.toInt) ∧
    ∀ (j k : ℕ) (dutyj dutyk : ℤ), t.mcu.servo[j]? = some dutyj → t.mcu.servo[k]? = some dutyk →
      ¬ 1600 < (inputs j).assistance → ¬ 1600 < (inputs k).assistance →
      DeflectionWindow c.autopilot.utility.maxAileronDeflection (inputs j).aileron →
      DeflectionWindow c.autopilot.utility.maxAileronDeflection (inputs k).aileron →
      (inputs j).aileron ≤ (inputs k).aileron → dutyj ≤ dutyk := by
  -- in manual mode the answer binds the stick, whatever the memory is
  have hmanual : ∀ (k : ℕ) (duty : ℤ), t.mcu.servo[k]? = some duty →
      ¬ 1600 < (inputs k).assistance →
        duty = (bindRcDeflection c.autopilot.utility.maxAileronDeflection
          (deflectionStick (inputs k).aileron)).toInt + 115 := by
    intro k duty hduty hassistance
    obtain ⟨s, hs, rfl⟩ := duty_of_boot hc h hno hduty
    rw [AutopilotManager.trigger_of_not_assisted hs
      (mt (assisted_rcRxPacket_iff (inputs k)).mp hassistance)]
    rfl
  refine ⟨fun k duty hduty hlower hupper => ?_, fun k duty hduty hassistance hwindow => ?_,
    fun j k dutyj dutyk hdutyj hdutyk hj hk hwindowj hwindowk hle => ?_⟩
  · by_cases hassistance : 1600 < (inputs k).assistance
    · obtain ⟨s, hs, rfl⟩ := duty_of_boot hc h hno hduty
      rw [AutopilotManager.trigger_of_assisted hs
        ((assisted_rcRxPacket_iff (inputs k)).mpr hassistance), servoDuty, add_sub_cancel_right]
      exact abs_computeRollToAileronDeflection_le hvalid.aileron _ _ _
    · rw [hmanual k duty hduty hassistance, add_sub_cancel_right]
      exact abs_deflection_of_nominal hvalid.aileron hlower hupper
  · rw [hmanual k duty hduty hassistance, deflection_of_window hvalid.aileron hwindow]
    ring
  · rw [hmanual j dutyj hdutyj hj, hmanual k dutyk hdutyk hk]
    have hmono := Int8.le_iff_toInt_le.mp (deflection_mono hvalid.aileron hwindowj hwindowk hle)
    omega

/-- The first iteration, with the aileron stick a fifth of the way up: 7 of the shipped 35. -/
theorem servo_first_iteration :
    ∃ t : Link ℚ, run (step (loopSamples fun _ => ⟨1000, 1600, 1500, 1500, 1000, 0, {}⟩)
        SomConfig.level) boot
        (bootLine ++ somGreets ++ [Action.deliverToMcu, .mcuReceive, .mcuDone, .mcuSend, .mcuDone,
          .deliverToSom, .somReceive 1, .somDone, .somDone] ++ loopWrites ++ somAnswers ++
          loopReads) = some t ∧
      t.mcu.servo = [122] ∧
      ∀ (k : ℕ) (duty : ℤ), t.mcu.servo[k]? = some duty → 1000 ≤ (1600 : UInt32).toNat →
        (1600 : UInt32).toNat ≤ 2000 →
          |duty - 115| ≤ SomConfig.level.autopilot.utility.maxAileronDeflection.toInt := by
  have hany : (run (step (loopSamples fun _ => ⟨1000, 1600, 1500, 1500, 1000, 0, {}⟩)
      SomConfig.level) boot
      (bootLine ++ somGreets ++ [Action.deliverToMcu, .mcuReceive, .mcuDone, .mcuSend, .mcuDone,
        .deliverToSom, .somReceive 1, .somDone, .somDone] ++ loopWrites ++ somAnswers ++
        loopReads)).any fun t => decide (t.mcu.servo = [122]) := by
    decide +kernel
  obtain ⟨t, ht, hservo⟩ := (Option.any_eq_true _ _).mp hany
  have hfits : Fits SomConfig.level := ⟨by decide, rfl⟩
  exact ⟨t, ht, of_decide_eq_true hservo,
    (servo_of_boot hfits pidValid_shipped ht (by decide)).1⟩

end Link

end RcPlane
