import RcPlane.Link.Servo
import RcPlane.Som.Reports

/-!
# From the sensors to the telemetry

What the SoM publishes is about its own iterations. Without timeouts these are the iterations of
`loop`: the attitude published is that of the sample of `loop`, and the deflections published are
those that `loop` applies in the same iteration.

## Main results

* `Link.reported_of_boot`: the SoM's messages along every run from power-on
* `Link.telemetry_of_boot`: what they are about, if nothing times out
-/

namespace RcPlane

open Foundation

namespace Link

variable {D : Type} [Double D] {samples : Samples} {c : SomConfig D} {acts : List Action}
  {t : Link D}

/-- In every run from power-on the messages are kept to the SoM's iterations. -/
theorem reported_of_boot (h : run (step samples c) boot acts = some t) :
    Som.Reported c t.som := by
  refine run_induction (P := fun t => Som.Reported c t.som)
    (A := Admits (fun _ => True) fun _ => True) (Som.reported_boot c) ?_ (fun a _ => ?_) h
  · exact fun s a t ha hs hstep => som_of_step (Som.reported_invariant c) ha hs hstep
  · cases a <;> trivial

omit [Double D] in
theorem packets_of_samples {iterations : List Iteration}
    (h : (iterations.map fun i => (i.rcRx.packet, i.imu.packet)) =
      (List.range iterations.length).map samples) {n : ℕ} {i : Iteration}
    (hi : iterations[n]? = some i) : (i.rcRx.packet, i.imu.packet) = samples n := by
  obtain ⟨hn, -⟩ := List.getElem?_eq_some_iff.mp hi
  have hget := congrArg (·[n]?) h
  simp only [List.getElem?_map, hi, List.getElem?_range hn, Option.map_some] at hget
  exact Option.some.inj hget

omit [Double D] in
/-- Iterations that use the samples of the loop make its calls. -/
theorem calls_of_samples {iterations : List Iteration}
    (h : (iterations.map fun i => (i.rcRx.packet, i.imu.packet)) =
      (List.range iterations.length).map samples) :
    Som.calls c iterations = loopCalls samples c iterations.length := by
  apply List.ext_getElem
  · simp [Som.calls, loopCalls]
  · intro k hk _
    rw [Som.calls, List.length_mapIdx] at hk
    have hsample := packets_of_samples h (List.getElem?_eq_getElem hk)
    simp only [Som.calls, loopCalls, List.getElem_mapIdx, List.getElem_map, List.getElem_range,
      ← hsample]

omit [Double D] in
/-- What is published is about the first of the iterations. -/
theorem getElem?_iterations_of_published {s : Som D} {n : ℕ} {i : Iteration}
    (h : s.published[n]? = some i) : s.iterations[n]? = some i := by
  have hprefix : s.published <+: s.iterations := by
    unfold Som.published
    split
    · exact List.dropLast_prefix _
    · exact List.prefix_rfl
  obtain ⟨hn, -⟩ := List.getElem?_eq_some_iff.mp h
  obtain ⟨rest, hrest⟩ := hprefix
  rw [← hrest, List.getElem?_append_left hn]
  exact h

/-- **From the sensors to the telemetry.** In every run from power-on in which nothing times out,
the call of `sendTelemetry` after `n + 1` iterations reports the `n`-th sample of `loop`, and the
deflections that `loop` applies once it has read the answer. -/
theorem telemetry_of_boot (hc : Fits c) (h : run (step samples c) boot acts = some t)
    (hno : ∀ a ∈ acts, ¬ a.isTimeout) :
    ∀ n messages, t.som.controller.telemetry[n + 1]? = some messages →
      messages.1.mainLoopCounter = UInt32.ofNat (n + 1) ∧
      messages.2.1 = ⟨0, c.promote (samples n).2.gyroX, c.promote (samples n).2.gyroY,
        c.promote (samples n).2.gyroZ⟩ ∧
      messages.2.2.mcuTimestamp = (samples n).1.timestamp ∧
      (messages.2.2.autopilotType = .STABILIZE_AUTOPILOT ↔ (samples n).1.assisted) ∧
      ∀ r, t.mcu.rounds[n]? = some r →
        (⟨messages.2.2.throttle, messages.2.2.aileronDeflection,
          messages.2.2.elevatorDeflection, messages.2.2.rudderDeflection⟩ :
            ControlSurfacePacket) = r.after := by
  intro n messages hmessages
  obtain ⟨-, hsamples, happlied, -⟩ := lockstep_of_boot hc h hno
  have hreported := reported_of_boot h
  obtain ⟨hcounter, hreport⟩ := hreported.getElem?_telemetry hmessages
  rw [getElem?_reports, Option.map_eq_some_iff] at hreport
  -- the report is that of the `n`-th iteration, which has read the `n`-th sample
  obtain ⟨i, hpublished, hreport⟩ := hreport
  have hi := getElem?_iterations_of_published hpublished
  obtain ⟨hn, -⟩ := List.getElem?_eq_some_iff.mp hi
  obtain ⟨hrcRx, himu⟩ := Prod.ext_iff.mp (packets_of_samples hsamples hi)
  rw [← hreport]
  refine ⟨hcounter, ?_, ?_, ?_, fun r hr => ?_⟩
  · rw [← himu]
    rfl
  · rw [← hrcRx]
    rfl
  · rw [← hrcRx]
    show (if i.rcRx.packet.assisted then AutopilotType.STABILIZE_AUTOPILOT else
      .MANUAL_AUTOPILOT) = .STABILIZE_AUTOPILOT ↔ _
    split_ifs with hassisted
    · exact iff_of_true rfl hassisted
    · exact iff_of_false (by decide) hassisted
  · -- the answer published and the one applied are those of one call
    have hn' : n < t.mcu.rounds.length := (List.getElem?_eq_some_iff.mp hr).1
    have hafter := congrArg (·[n]?) happlied
    have hreply := congrArg (·[n]?) hreported.triggered.replies
    rw [calls_of_samples hsamples] at hreply
    have hanswer := getElem?_outputs_loopCalls samples c hn
    have hanswer' := getElem?_outputs_loopCalls samples c hn'
    simp only [List.getElem?_map, hi, hr, Option.map_some] at hreply hafter
    have hsame : i.reply = r.after :=
      (Option.some.inj (hreply.trans hanswer)).trans (Option.some.inj (hafter.trans hanswer')).symm
    rw [← hsame]
    rfl

/-- One iteration of both loops, in which the aileron stick is half way up. -/
theorem telemetry_first_iteration :
    ∃ t : Link ℚ, run (step (Samples.steady { timestamp := 7, aileronStickPosition := 50 } {})
        .level) boot
        (bootLine ++ somGreets ++ [Action.deliverToMcu, .mcuReceive, .mcuDone, .mcuSend, .mcuDone,
          .deliverToSom, .somReceive 1, .somDone, .somDone] ++ loopWrites ++ somAnswers ++
          loopReads) = some t ∧
      t.som.controller.telemetry.length = 2 ∧
      ∀ n messages, t.som.controller.telemetry[n + 1]? = some messages →
        messages.2.2.mcuTimestamp = 7 := by
  have hany : (run (step (Samples.steady { timestamp := 7, aileronStickPosition := 50 } {})
      SomConfig.level) boot
      (bootLine ++ somGreets ++ [Action.deliverToMcu, .mcuReceive, .mcuDone, .mcuSend, .mcuDone,
        .deliverToSom, .somReceive 1, .somDone, .somDone] ++ loopWrites ++ somAnswers ++
        loopReads)).any
        fun t => decide (t.som.controller.telemetry.length = 2) := by
    decide +kernel
  obtain ⟨t, ht, hlength⟩ := (Option.any_eq_true _ _).mp hany
  have hfits : Fits SomConfig.level := ⟨by decide, rfl⟩
  exact ⟨t, ht, of_decide_eq_true hlength, fun n messages hmessages =>
    (telemetry_of_boot hfits ht (by decide) n messages hmessages).2.2.1⟩

end Link

end RcPlane
