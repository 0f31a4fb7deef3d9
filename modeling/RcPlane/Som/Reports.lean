import RcPlane.Autopilot.ModeSelection
import RcPlane.Som.Handover
import RcPlane.Som.Environment

/-!
# What the telemetry reports

`runMainLoop` fills the onboard message when the autopilot has answered, and the attitude message
after the write, and publishes both at the end of the iteration. In between the messages are those
of two different iterations, but what is published never is.

## Main definitions

* `Iteration.attitude`, `Iteration.onboard`: the messages about an iteration
* `reports`: the messages about some iterations, and those before the first one
* `Som.published`: the iterations that have been published
* `Som.Reported`: what is kept of the messages

## Main results

* `Som.reported_invariant`: every step keeps it
* `Som.reports_of_run`: every run publishes one report an iteration
-/

namespace RcPlane

open Foundation

variable {D : Type}

/-! ## The messages of an iteration -/

/-- The attitude message about an iteration. -/
def Iteration.attitude [Double D] (c : SomConfig D) (i : Iteration) : AttitudeMessage D where
  courseHeading := 0
  rollAngle := c.promote i.imu.packet.gyroX
  pitchAngle := c.promote i.imu.packet.gyroY
  yawAngle := c.promote i.imu.packet.gyroZ

/-- The onboard message about an iteration: its answer, and the autopilot that its first packet
selects. -/
def Iteration.onboard (c : SomConfig D) (i : Iteration) : OnboardStateMessage where
  mcuTimestamp := i.rcRx.packet.timestamp
  throttle := i.reply.motorSpeed
  aileronDeflection := i.reply.aileronDeflection
  elevatorDeflection := i.reply.elevatorDeflection
  rudderDeflection := i.reply.rudderDeflection
  autopilotType := if i.rcRx.packet.assisted then .STABILIZE_AUTOPILOT else .MANUAL_AUTOPILOT
  imuTemperature := c.temperature i.imu.packet.temperature

/-- The attitude and the onboard message before the first iteration. -/
def noReport [Double D] : AttitudeMessage D × OnboardStateMessage := (⟨0, 0, 0, 0⟩, {})

/-- The messages about the published iterations, and those before the first one. -/
def reports [Double D] (c : SomConfig D) (iterations : List Iteration) :
    List (AttitudeMessage D × OnboardStateMessage) :=
  noReport :: iterations.map fun i => (i.attitude c, i.onboard c)

theorem reports_append [Double D] (c : SomConfig D) (iterations iterations' : List Iteration) :
    reports c (iterations ++ iterations') = reports c iterations ++
      iterations'.map fun i => (i.attitude c, i.onboard c) := by
  rw [reports, List.map_append, ← List.cons_append]
  rfl

theorem getElem?_reports [Double D] (c : SomConfig D) (iterations : List Iteration) (n : ℕ) :
    (reports c iterations)[n + 1]? =
      iterations[n]?.map fun i => (i.attitude c, i.onboard c) := by
  rw [reports, List.getElem?_cons_succ, List.getElem?_map]

namespace Som

variable {c : SomConfig D} {s s' : Som D}

/-! ## What is kept -/

/-- The iterations that have been published: all but the one whose answer is being written. -/
def published (s : Som D) : List Iteration :=
  match s.phase with
  | .writing (.controlSurface _) _ => s.iterations.dropLast
  | _ => s.iterations

/-- The messages published are those about the iterations, and the messages in memory go with the
place in the iteration. -/
structure Reported [Double D] (c : SomConfig D) (s : Som D) : Prop where
  triggered : s.Triggered c
  courseHeading : s.controller.attitudeMessage.courseHeading = 0
  counter : s.controller.debugMessage.mainLoopCounter = UInt32.ofNat s.published.length
  /-- Before the main loop nothing is published. -/
  outside : ¬ s.InMainLoop → s.controller.telemetry = [] ∧ s.iterations = [] ∧
    (s.controller.attitudeMessage, s.controller.onboardMessage) = noReport
  /-- While the answer is written, the onboard message is about its iteration already. -/
  writing : ∀ imuPacket left, s.phase = .writing (.controlSurface imuPacket) left →
    ∃ before i, s.iterations = before ++ [i] ∧ imuPacket = i.imu.packet ∧
      s.controller.onboardMessage = i.onboard c
  messages : s.InMainLoop → s.controller.telemetry.map Prod.snd = reports c s.published
  counters : s.InMainLoop → s.controller.telemetry.map (fun m => m.1.mainLoopCounter) =
    (List.range (s.published.length + 1)).map UInt32.ofNat

theorem reported_boot [Double D] (c : SomConfig D) : Reported c (boot : Som D) where
  triggered := ⟨rfl, rfl⟩
  courseHeading := rfl
  counter := rfl
  outside _ := ⟨rfl, rfl, rfl⟩
  writing _ _ h := by cases h
  messages h := h.elim
  counters h := h.elim

/-- The two controllers differ in the counters of the serial operations at most. -/
structure SameMessages (a b : SomController D) : Prop where
  autopilotManager : a.autopilotManager = b.autopilotManager
  attitudeMessage : a.attitudeMessage = b.attitudeMessage
  onboardMessage : a.onboardMessage = b.onboardMessage
  mainLoopCounter : a.debugMessage.mainLoopCounter = b.debugMessage.mainLoopCounter
  telemetry : a.telemetry = b.telemetry

theorem SameMessages.refl (a : SomController D) : SameMessages a a := ⟨rfl, rfl, rfl, rfl, rfl⟩

theorem sameMessages_countRead (a : SomController D) (didTimeout : Bool) :
    SameMessages (a.countRead didTimeout) a := by
  refine ⟨rfl, rfl, rfl, ?_, rfl⟩
  cases didTimeout <;> rfl

theorem sameMessages_countWrite (a : SomController D) (written : Bool) :
    SameMessages (a.countWrite written) a := by
  refine ⟨rfl, rfl, rfl, ?_, rfl⟩
  cases written <;> rfl

/-- A step that goes on with an iteration, or with the handshake, leaves the messages alone. -/
theorem Reported.of_same [Double D] (h : Reported c s)
    (hsame : SameMessages s'.controller s.controller) (hiterations : s'.iterations = s.iterations)
    (hpublished : s'.published = s.published)
    (hloop : s'.InMainLoop ↔ s.InMainLoop)
    (hwriting : ∀ imuPacket left, s'.phase = .writing (.controlSurface imuPacket) left →
      ∃ left', s.phase = .writing (.controlSurface imuPacket) left') : Reported c s' where
  triggered := by
    obtain ⟨hmanager, hreplies⟩ := h.triggered
    constructor
    · rw [hsame.autopilotManager, hiterations]
      exact hmanager
    · rw [hiterations]
      exact hreplies
  courseHeading := by rw [hsame.attitudeMessage]; exact h.courseHeading
  counter := by rw [hsame.mainLoopCounter, hpublished]; exact h.counter
  outside hout := by
    rw [hsame.telemetry, hsame.attitudeMessage, hsame.onboardMessage, hiterations]
    exact h.outside fun hin => hout (hloop.mpr hin)
  writing imuPacket left hphase := by
    obtain ⟨left', hphase'⟩ := hwriting imuPacket left hphase
    rw [hsame.onboardMessage, hiterations]
    exact h.writing imuPacket left' hphase'
  messages hin := by
    rw [hsame.telemetry, hpublished]
    exact h.messages (hloop.mp hin)
  counters hin := by
    rw [hsame.telemetry, hpublished]
    exact h.counters (hloop.mp hin)

/-- Outside the main loop every iteration, if there were one, would be published. -/
theorem published_of_not_inMainLoop (h : ¬ s.InMainLoop) : s.published = s.iterations := by
  unfold published
  split
  · next hphase =>
    rw [InMainLoop, hphase] at h
    exact (h trivial).elim
  · rfl

/-- A step of the handshake. -/
theorem Reported.of_outside [Double D] (h : Reported c s) (hout : ¬ s.InMainLoop)
    (hout' : ¬ s'.InMainLoop) (hsame : SameMessages s'.controller s.controller)
    (hiterations : s'.iterations = s.iterations) : Reported c s' := by
  refine h.of_same hsame hiterations ?_ (iff_of_false hout' hout) fun imuPacket left hphase => ?_
  · rw [published_of_not_inMainLoop hout, published_of_not_inMainLoop hout', hiterations]
  · rw [InMainLoop, hphase] at hout'
    exact (hout' trivial).elim

/-! ## The steps -/

theorem reported_send [Double D] {b : UInt8} (h : Reported c s) (hstep : s.send = some (b, s')) :
    Reported c s' := by
  obtain ⟨w, left, hphase, rfl⟩ := send_eq_some.mp hstep
  refine h.of_same (.refl _) rfl ?_ ?_ ?_
  · rw [published, published, hphase]
    cases w <;> rfl
  · rw [InMainLoop, InMainLoop, hphase]
    cases w <;> rfl
  · intro imuPacket left' hphase'
    obtain ⟨rfl, -⟩ := SomPhase.writing.inj hphase'
    exact ⟨b :: left, hphase⟩

theorem reported_receive [Double D] {piece : List UInt8} (h : Reported c s)
    (hstep : s.receive c piece = some s') : Reported c s' := by
  rcases receive_eq_some hstep with ⟨hphase, -, rfl⟩ | ⟨r, need, hphase, -, rfl⟩
  · refine h.of_same (.refl _) rfl rfl Iff.rfl fun imuPacket left hphase' => ?_
    exact ⟨left, hphase'⟩
  · refine h.of_same (.refl _) rfl ?_ ?_ ?_
    · rw [published, published, hphase]
    · rw [InMainLoop, InMainLoop, hphase]
      cases r <;> rfl
    · intro imuPacket left hphase'
      cases hphase'

/-- The autopilot that the onboard message names is the one that the packet selects. -/
theorem onboardMessage_finishImuRead [Double D] (h : Triggered c s) (rcRx : ReadResult .rcRx)
    (result : ReadResult .imu) :
    ∃ i : Iteration, (finishImuRead c s rcRx result).iterations = s.iterations ++ [i] ∧
      i.imu = result ∧
      (finishImuRead c s rcRx result).controller.onboardMessage = i.onboard c := by
  refine ⟨_, rfl, rfl, ?_⟩
  have hconsistent : s.controller.autopilotManager.Consistent := by
    rw [h.manager]
    exact AutopilotManager.consistent_after _
  have hmode (call : TriggerCall D) :
      (if (AutopilotManager.trigger c.promote c.autopilot s.controller.autopilotManager
          call).1.isInManualMode then AutopilotType.MANUAL_AUTOPILOT else .STABILIZE_AUTOPILOT) =
        if call.rcRxPacket.assisted then .STABILIZE_AUTOPILOT else .MANUAL_AUTOPILOT := by
    by_cases hassisted : call.rcRxPacket.assisted
    · rw [AutopilotManager.trigger_of_assisted hconsistent hassisted, if_pos hassisted]
      rfl
    · rw [AutopilotManager.trigger_of_not_assisted hconsistent hassisted, if_neg hassisted]
      rfl
  exact congrArg (fun autopilotType => OnboardStateMessage.mk _ _ _ _ _ autopilotType _) (hmode _)

theorem reported_finishRead [Double D] (h : Reported c s) {r : SomRead} {need : ℕ}
    (hphase : s.phase = .reading r need) (result : ReadResult r.type) :
    Reported c (finishRead c s r result) := by
  cases r with
  | handshake attempt =>
    have hout : ¬ s.InMainLoop := by
      rw [InMainLoop, hphase]
      exact not_false
    show Reported c (finishHandshakeRead c s attempt result)
    unfold finishHandshakeRead
    split_ifs
    · exact h.of_outside hout (outside_of_attempt rfl) (sameMessages_countRead _ _) rfl
    · exact h.of_outside hout not_false (sameMessages_countRead _ _) rfl
    · exact h.of_outside hout (outside_of_attempt rfl) (.refl _) rfl
  | rcRx =>
    refine h.of_same (sameMessages_countRead _ _) rfl ?_ ?_ fun imuPacket left hphase' => ?_
    · rw [published, published, hphase]
      rfl
    · rw [InMainLoop, InMainLoop, hphase]
      rfl
    · cases hphase'
  | imu rcRx =>
    obtain ⟨i, hiterations, himu, honboard⟩ :=
      onboardMessage_finishImuRead h.triggered rcRx result
    have hin : s.InMainLoop := by
      rw [InMainLoop, hphase]
      trivial
    -- the iteration is under way, and not yet published
    have hpublished : s.published = s.iterations := by rw [published, hphase]
    have hpublished' : (finishImuRead c s rcRx result).published = s.published := by
      show (finishImuRead c s rcRx result).iterations.dropLast = _
      rw [hiterations, List.dropLast_concat, hpublished]
    have hsame := sameMessages_countRead s.controller result.didTimeout
    exact {
      triggered := h.triggered.finishImuRead rcRx result
      courseHeading := h.courseHeading
      counter := by
        show (finishImuRead c s rcRx result).controller.debugMessage.mainLoopCounter =
          UInt32.ofNat (finishImuRead c s rcRx result).published.length
        rw [hpublished', ← h.counter]
        exact hsame.mainLoopCounter
      outside := fun hout => (hout trivial).elim
      writing := fun imuPacket left hphase' => by
        obtain ⟨hwrite, -⟩ := SomPhase.writing.inj hphase'
        obtain rfl := SomWrite.controlSurface.inj hwrite
        exact ⟨s.iterations, i, hiterations, by rw [himu], honboard⟩
      messages := fun _ => by
        show s.controller.telemetry.map Prod.snd =
          reports c (finishImuRead c s rcRx result).published
        rw [hpublished']
        exact h.messages hin
      counters := fun _ => by
        show s.controller.telemetry.map (fun m => m.1.mainLoopCounter) =
          (List.range ((finishImuRead c s rcRx result).published.length + 1)).map UInt32.ofNat
        rw [hpublished']
        exact h.counters hin }

/-- The end of an iteration publishes its messages. -/
theorem reported_finishWrite [Double D] (h : Reported c s) {w : SomWrite} {left : List UInt8}
    (hphase : s.phase = .writing w left) (written : Bool) :
    Reported c (finishWrite c s w written) := by
  cases w with
  | handshake =>
    have hout : ¬ s.InMainLoop := by
      rw [InMainLoop, hphase]
      exact not_false
    cases written with
    | false => exact h.of_outside hout not_false (.refl _) rfl
    | true => exact h.of_outside hout (outside_of_attempt rfl) (sameMessages_countWrite _ _) rfl
  | controlSurface imuPacket =>
    obtain ⟨before, i, hiterations, himu, honboard⟩ := h.writing imuPacket left hphase
    have hin : s.InMainLoop := by
      rw [InMainLoop, hphase]
      trivial
    -- the iteration under way has not been published yet
    have hpublished : s.published = before := by
      rw [published, hphase]
      show s.iterations.dropLast = before
      rw [hiterations, List.dropLast_concat]
    have hpublished' : (finishWrite c s (.controlSurface imuPacket) written).published =
        before ++ [i] := hiterations
    have hsame := sameMessages_countWrite s.controller written
    have hattitude : (finishWrite c s (.controlSurface imuPacket)
        written).controller.attitudeMessage = i.attitude c := by
      rw [Iteration.attitude, ← himu, ← h.courseHeading]
      rfl
    have hcounter : (finishWrite c s (.controlSurface imuPacket)
        written).controller.debugMessage.mainLoopCounter = UInt32.ofNat (before.length + 1) := by
      show (s.controller.countWrite written).debugMessage.mainLoopCounter + 1 = _
      rw [hsame.mainLoopCounter, h.counter, hpublished, UInt32.ofNat_add]
      rfl
    exact {
      triggered := h.triggered.finishWrite _ written
      courseHeading := by rw [hattitude]; rfl
      counter := by
        rw [hcounter, hpublished', List.length_append]
        rfl
      outside := fun hout => (hout trivial).elim
      writing := fun _ _ hphase' => by cases hphase'
      messages := fun _ => by
        show (s.controller.telemetry ++ [(_, (finishWrite c s (.controlSurface imuPacket)
          written).controller.attitudeMessage, s.controller.onboardMessage)]).map Prod.snd = _
        rw [List.map_append, h.messages hin, hpublished, hpublished', reports_append, hattitude,
          honboard]
        rfl
      counters := fun _ => by
        show (s.controller.telemetry ++ [((finishWrite c s (.controlSurface imuPacket)
          written).controller.debugMessage, _)]).map
            (fun m : DebugMessage × _ => m.1.mainLoopCounter) = _
        -- the counter has run from 0 to the number of iterations published
        have hrange : List.range (before.length + 1 + 1) =
            List.range (before.length + 1) ++ [before.length + 1] := List.range_succ
        rw [List.map_append, h.counters hin, hpublished, hpublished', List.length_append,
          List.length_singleton, hrange, List.map_append, List.map_singleton,
          List.map_singleton, hcounter] }

theorem reported_connected [Double D] (h : Reported c s) (hphase : s.phase = .connected) :
    Reported c { s with
      controller := s.controller.sendTelemetry, phase := .startRead .rcRx } := by
  have hout : ¬ s.InMainLoop := by
    rw [InMainLoop, hphase]
    exact not_false
  obtain ⟨htelemetry, hiterations, hmessages⟩ := h.outside hout
  have hpublished : s.published = [] := by rw [published_of_not_inMainLoop hout, hiterations]
  have hcounter := h.counter
  rw [hpublished] at hcounter
  exact {
    triggered := ⟨h.triggered.manager, h.triggered.replies⟩
    courseHeading := h.courseHeading
    counter := by
      show s.controller.debugMessage.mainLoopCounter = UInt32.ofNat s.iterations.length
      rw [hiterations]
      exact hcounter
    outside := fun hout => (hout trivial).elim
    writing := fun _ _ hphase' => by cases hphase'
    messages := fun _ => by
      show (s.controller.telemetry ++ [(s.controller.debugMessage, s.controller.attitudeMessage,
        s.controller.onboardMessage)]).map Prod.snd = reports c s.iterations
      rw [htelemetry, hiterations, hmessages]
      rfl
    counters := fun _ => by
      show (s.controller.telemetry ++ [(s.controller.debugMessage, _)]).map
          (fun m : DebugMessage × _ => m.1.mainLoopCounter) =
        (List.range (s.iterations.length + 1)).map UInt32.ofNat
      rw [htelemetry, hiterations]
      exact congrArg (fun counter => [counter]) hcounter }

/-- Every step keeps the messages to the iterations. -/
theorem reported_invariant [Double D] (c : SomConfig D) :
    Invariant c (fun _ => True) (Reported c) where
  send h hstep := reported_send h hstep
  receive h hstep := reported_receive h hstep
  done {s s'} h hstep := by
    rcases done_eq_some hstep with ⟨size, hphase, -, rfl⟩ | ⟨w, hphase, rfl⟩ | ⟨r, hphase, rfl⟩ |
      ⟨hphase, rfl⟩
    · refine h.of_outside ?_ not_false (.refl _) rfl
      rw [InMainLoop, hphase]
      exact not_false
    · exact reported_finishWrite h hphase true
    · have hs : Reported c { s with
          serial := (s.serial.completeRead r.type).2
          consumed := s.consumed ++ s.serial.streamBuffer.take r.type.codec.size } :=
        h.of_same (.refl _) rfl rfl Iff.rfl fun imuPacket left hphase' => ⟨left, hphase'⟩
      exact reported_finishRead hs hphase _
    · exact reported_connected h hphase
  timeout {s s' o} _ h hstep := by
    rcases timeout_eq_some hstep with ⟨-, hphase, rfl⟩ | ⟨r, need, -, hphase, rfl⟩ |
      ⟨w, b, left, -, hphase, rfl⟩
    · refine h.of_outside ?_ not_false (.refl _) rfl
      rw [InMainLoop, hphase]
      exact not_false
    · exact reported_finishRead h hphase {}
    · exact reported_finishWrite h hphase false

/-! ## Whole runs -/

/-- In every run, whatever is received and whatever times out, the messages are kept to the
iterations. -/
theorem reported_of_run [Double D] {acts : List SomAction}
    (h : run (Som.step c) boot acts = some s) : Reported c s :=
  (reported_invariant c).of_run (reported_boot c) h

theorem Reported.getElem?_telemetry [Double D] (h : Reported c s) {n : ℕ}
    {messages : DebugMessage × AttitudeMessage D × OnboardStateMessage}
    (hmessages : s.controller.telemetry[n]? = some messages) :
    messages.1.mainLoopCounter = UInt32.ofNat n ∧
      (reports c s.published)[n]? = some messages.2 := by
  have hin : s.InMainLoop := by
    by_contra hout
    rw [(h.outside hout).1] at hmessages
    cases hmessages
  have hcounter : (s.controller.telemetry.map fun m => m.1.mainLoopCounter)[n]? =
      some messages.1.mainLoopCounter := by rw [List.getElem?_map, hmessages, Option.map_some]
  have hreport : (s.controller.telemetry.map Prod.snd)[n]? = some messages.2 := by
    rw [List.getElem?_map, hmessages, Option.map_some]
  rw [h.messages hin] at hreport
  rw [h.counters hin] at hcounter
  have hlt : n < s.published.length + 1 := by
    obtain ⟨hlt, -⟩ := List.getElem?_eq_some_iff.mp hreport
    rwa [reports, List.length_cons, List.length_map] at hlt
  rw [List.getElem?_map, List.getElem?_range hlt, Option.map_some] at hcounter
  exact ⟨(Option.some.inj hcounter).symm, hreport⟩

/-- **One report an iteration.** In every run, whatever is received and whatever times out, the
SoM publishes nothing before its main loop; in the main loop it has published once before the first
iteration and then once for each iteration whose write is over. The call of an iteration counts the
iterations so far, and reports the packets of its two reads, the answer to them, and the autopilot
that the packet selects. -/
theorem reports_of_run [Double D] {acts : List SomAction}
    (h : run (Som.step c) boot acts = some s) :
    (¬ s.InMainLoop → s.controller.telemetry = [] ∧ s.iterations = []) ∧
      (s.InMainLoop → s.controller.telemetry.length = s.published.length + 1 ∧
        s.controller.telemetry.map Prod.snd = reports c s.published ∧
        s.controller.telemetry.map (fun messages => messages.1.mainLoopCounter) =
          (List.range (s.published.length + 1)).map UInt32.ofNat) := by
  have hreported := reported_of_run h
  constructor
  · intro hout
    obtain ⟨htelemetry, hiterations, -⟩ := hreported.outside hout
    exact ⟨htelemetry, hiterations⟩
  · intro hin
    have hmessages := hreported.messages hin
    have hlength := congrArg List.length hmessages
    rw [List.length_map, reports, List.length_cons, List.length_map] at hlength
    exact ⟨hlength, hmessages, hreported.counters hin⟩

/-- Two calls: before the first iteration, which is assisted, and after it. The first read of the
second iteration times out. -/
theorem reports_timeoutInFlight :
    ∃ s, run (Som.step SomConfig.level) boot SomAction.timeoutInFlight = some s ∧
      s.published.length = 1 ∧
      (∀ i ∈ s.published,
        (i.onboard SomConfig.level).autopilotType = .STABILIZE_AUTOPILOT) ∧
      s.controller.telemetry.length = s.published.length + 1 ∧
      s.controller.telemetry.map Prod.snd = reports SomConfig.level s.published ∧
      s.controller.telemetry.map (fun messages => messages.1.mainLoopCounter) =
        (List.range (s.published.length + 1)).map UInt32.ofNat := by
  have hrun : run (Som.step SomConfig.level) boot SomAction.timeoutInFlight = some _ := rfl
  refine ⟨_, hrun, rfl, fun i hi => ?_, (reports_of_run hrun).2 trivial⟩
  obtain rfl := List.mem_singleton.mp hi
  rfl

end Som

end RcPlane
