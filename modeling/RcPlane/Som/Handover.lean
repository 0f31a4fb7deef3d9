import RcPlane.Mcu.Firmware
import RcPlane.Serial.Flush
import RcPlane.Som.MainLoop

/-!
# From the handshake to the main loop

What the SoM has consumed and sent in `handshakeMCU` is a history that lies behind the main loop:
the steps append to it and never look at it. So whatever the steps of the main loop keep, they
keep with the bytes of the handshake in front of their own. Before the main loop the autopilot is
never called, and a handshake in which nothing times out accepts the first byte that it reads.

## Main definitions

* `handshakeBytes`: what the microcontroller sends in the handshake
* `Som.behind`, `Som.sinceHandshake`: a history in front, and the history without the handshake
* `Som.Fresh`: the autopilot has not been called
* `Som.Greeting`: where a handshake in which nothing times out stands

## Main results

* `Som.Invariant.behind`: a history in front changes nothing
* `Som.fresh_done`: the main loop is entered from the end of the handshake alone
* `Som.greeting_done`: the flush finds the line, and the first byte read is the echo
-/

namespace RcPlane

open Foundation SerialController

/-- The bytes of the handshake that the microcontroller sends: the line and the echo. -/
def handshakeBytes : List UInt8 :=
  flushLine ++ HandshakePacket.codec.encode kHandshakePacket

/-! ## A history in front -/

namespace Som

variable {D : Type}

/-- The same program, with bytes consumed and sent before its own history. -/
def behind (consumed sent : List UInt8) (s : Som D) : Som D :=
  { s with consumed := consumed ++ s.consumed, sent := sent ++ s.sent }

variable {c : SomConfig D} {consumed sent : List UInt8} {s s' : Som D}

theorem send_behind {b : UInt8} (h : (s.behind consumed sent).send = some (b, s')) :
    ∃ t, s.send = some (b, t) ∧ s' = t.behind consumed sent := by
  obtain ⟨w, left, hphase, rfl⟩ := send_eq_some.mp h
  exact ⟨_, send_eq_some.mpr ⟨w, left, hphase, rfl⟩, by
    simp only [behind, List.append_assoc]⟩

theorem receive_behind {piece : List UInt8}
    (h : (s.behind consumed sent).receive c piece = some s') :
    ∃ t, s.receive c piece = some t ∧ s' = t.behind consumed sent := by
  unfold receive at h ⊢
  rw [show (s.behind consumed sent).phase = s.phase from rfl,
    show (s.behind consumed sent).serial = s.serial from rfl] at h
  split at h
  · split_ifs at h with hnone
    exact ⟨_, if_pos hnone, (Option.some.inj h).symm⟩
  · split_ifs at h with hlen
    exact ⟨_, if_pos hlen, (Option.some.inj h).symm⟩
  · cases h

theorem finishRead_behind [Double D] (r : SomRead) (result : ReadResult r.type) :
    finishRead c (s.behind consumed sent) r result =
      (finishRead c s r result).behind consumed sent := by
  cases r with
  | handshake attempt =>
    show finishHandshakeRead c (s.behind consumed sent) attempt result =
      (finishHandshakeRead c s attempt result).behind consumed sent
    unfold finishHandshakeRead
    split_ifs <;> rfl
  | rcRx => rfl
  | imu rcRx => rfl

theorem finishWrite_behind (w : SomWrite) (written : Bool) :
    finishWrite c (s.behind consumed sent) w written =
      (finishWrite c s w written).behind consumed sent := by
  cases w with
  | handshake => cases written <;> rfl
  | controlSurface imuPacket => rfl

theorem done_behind [Double D] (h : (s.behind consumed sent).done c = some s') :
    ∃ t, s.done c = some t ∧ s' = t.behind consumed sent := by
  rcases done_eq_some h with ⟨size, hphase, hsize, rfl⟩ | ⟨w, hphase, rfl⟩ | ⟨r, hphase, rfl⟩ |
    ⟨hphase, rfl⟩
  · have hphase : s.phase = .flushing := hphase
    have hsize : untilSize c.handshakeTerminationStr s.serial.streamBuffer = some size := hsize
    refine ⟨s.finishFlush size, by simp only [done, hphase, hsize, Option.map_some], ?_⟩
    simp only [finishFlush, behind, List.append_assoc]
  · have hphase : s.phase = .writing w [] := hphase
    exact ⟨finishWrite c s w true, by simp only [done, hphase], finishWrite_behind w true⟩
  · have hphase : s.phase = .reading r 0 := hphase
    refine ⟨completeRead c s r, by simp only [done, hphase], ?_⟩
    rw [completeRead, completeRead, ← finishRead_behind]
    simp only [behind, List.append_assoc]
  · have hphase : s.phase = .connected := hphase
    exact ⟨{ s with controller := s.controller.sendTelemetry, phase := .startRead .rcRx },
      by simp only [done, hphase], rfl⟩

theorem timeout_behind [Double D] {o : SomTimeout}
    (h : (s.behind consumed sent).timeout c o = some s') :
    ∃ t, s.timeout c o = some t ∧ s' = t.behind consumed sent := by
  unfold timeout at h ⊢
  rw [show (s.behind consumed sent).phase = s.phase from rfl,
    show (s.behind consumed sent).serial = s.serial from rfl] at h
  split at h
  · split_ifs at h with hnone
    exact ⟨_, if_pos hnone, (Option.some.inj h).symm⟩
  · next r need _ =>
    exact ⟨_, rfl, (Option.some.inj h).symm.trans (finishRead_behind r {})⟩
  · next w b left _ =>
    exact ⟨_, rfl, (Option.some.inj h).symm.trans (finishWrite_behind w false)⟩
  · cases h

/-- A history in front changes nothing: what the steps keep, they keep behind it. -/
theorem Invariant.behind [Double D] {A : SomTimeout → Prop} {P : Som D → Prop}
    (hP : Invariant c A P) (consumed sent : List UInt8) :
    Invariant c A fun s => ∃ u, s = u.behind consumed sent ∧ P u where
  send := by
    rintro _ s' b ⟨u, rfl, hu⟩ hstep
    obtain ⟨t, ht, rfl⟩ := send_behind hstep
    exact ⟨t, rfl, hP.send hu ht⟩
  receive := by
    rintro _ s' piece ⟨u, rfl, hu⟩ hstep
    obtain ⟨t, ht, rfl⟩ := receive_behind hstep
    exact ⟨t, rfl, hP.receive hu ht⟩
  done := by
    rintro _ s' ⟨u, rfl, hu⟩ hstep
    obtain ⟨t, ht, rfl⟩ := done_behind hstep
    exact ⟨t, rfl, hP.done hu ht⟩
  timeout := by
    rintro _ s' o ho ⟨u, rfl, hu⟩ hstep
    obtain ⟨t, ht, rfl⟩ := timeout_behind hstep
    exact ⟨t, rfl, hP.timeout ho hu ht⟩

/-! ## Outside the main loop -/

/-- The program with the bytes of the handshake taken out of its history. -/
def sinceHandshake (s : Som D) : Som D :=
  { s with
    consumed := s.consumed.drop handshakeBytes.length
    sent := s.sent.drop (HandshakePacket.codec.encode kHandshakePacket).length }

theorem sinceHandshake_behind (s : Som D) :
    (s.behind handshakeBytes (HandshakePacket.codec.encode kHandshakePacket)).sinceHandshake =
      s := by
  simp only [sinceHandshake, behind, List.drop_left]

/-- `runMainLoop` has been called. -/
def isInMainLoop (s : Som D) : Bool :=
  match s.phase with
  | .reading .rcRx _ => true
  | .reading (.imu _) _ => true
  | .writing (.controlSurface _) _ => true
  | _ => false

theorem isInMainLoop_iff : s.isInMainLoop = true ↔ s.InMainLoop := by
  rw [isInMainLoop, InMainLoop]
  cases s.phase with
  | reading r need => cases r <;> simp
  | writing w left => cases w <;> simp
  | _ => simp

/-- The autopilot has not been called. -/
def Fresh [Double D] (s : Som D) : Prop :=
  s.iterations = [] ∧ s.controller.autopilotManager = AutopilotManager.initial

theorem outside_of_attempt {attempt : ℕ} (hphase : s.phase = attemptPhase c attempt) :
    ¬ s.InMainLoop := by
  unfold attemptPhase at hphase
  split_ifs at hphase <;> rw [InMainLoop, hphase] <;> exact not_false

theorem fresh_send [Double D] {b : UInt8} (hout : ¬ s.InMainLoop) (h : s.Fresh)
    (hstep : s.send = some (b, s')) : ¬ s'.InMainLoop ∧ s'.Fresh := by
  obtain ⟨w, left, hphase, rfl⟩ := send_eq_some.mp hstep
  rw [InMainLoop, hphase] at hout
  cases w with
  | handshake => exact ⟨not_false, h⟩
  | controlSurface imuPacket => exact (hout trivial).elim

theorem fresh_receive [Double D] {piece : List UInt8} (hout : ¬ s.InMainLoop) (h : s.Fresh)
    (hstep : s.receive c piece = some s') : ¬ s'.InMainLoop ∧ s'.Fresh := by
  rcases receive_eq_some hstep with ⟨hphase, -, rfl⟩ | ⟨r, need, hphase, -, rfl⟩
  · rw [InMainLoop, hphase] at hout
    refine ⟨?_, h⟩
    rw [InMainLoop, hphase]
    exact hout
  · rw [InMainLoop, hphase] at hout
    cases r with
    | handshake attempt => exact ⟨not_false, h⟩
    | rcRx => exact (hout trivial).elim
    | imu rcRx => exact (hout trivial).elim

theorem fresh_finishRead [Double D] (hout : ¬ s.InMainLoop) (h : s.Fresh) {r : SomRead} {need : ℕ}
    (hphase : s.phase = .reading r need) (result : ReadResult r.type) :
    ¬ (finishRead c s r result).InMainLoop ∧ (finishRead c s r result).Fresh := by
  rw [InMainLoop, hphase] at hout
  cases r with
  | handshake attempt =>
    show ¬ (finishHandshakeRead c s attempt result).InMainLoop ∧
      (finishHandshakeRead c s attempt result).Fresh
    unfold finishHandshakeRead
    split_ifs
    · exact ⟨outside_of_attempt rfl, h⟩
    · exact ⟨not_false, h⟩
    · exact ⟨outside_of_attempt rfl, h⟩
  | rcRx => exact (hout trivial).elim
  | imu rcRx => exact (hout trivial).elim

theorem fresh_finishWrite [Double D] (hout : ¬ s.InMainLoop) (h : s.Fresh) {w : SomWrite}
    {left : List UInt8} (hphase : s.phase = .writing w left) (written : Bool) :
    ¬ (finishWrite c s w written).InMainLoop ∧ (finishWrite c s w written).Fresh := by
  rw [InMainLoop, hphase] at hout
  cases w with
  | handshake =>
    cases written with
    | false => exact ⟨not_false, h⟩
    | true => exact ⟨outside_of_attempt rfl, h⟩
  | controlSurface imuPacket => exact (hout trivial).elim

/-- The main loop is entered from the end of the handshake alone, and nothing has called the
autopilot before it. -/
theorem fresh_done [Double D] (hout : ¬ s.InMainLoop) (h : s.Fresh) (hstep : s.done c = some s') :
    (¬ s'.InMainLoop ∧ s'.Fresh) ∨ (s.phase = .connected ∧
      s' = { s with controller := s.controller.sendTelemetry, phase := .startRead .rcRx }) := by
  rcases done_eq_some hstep with ⟨size, -, -, rfl⟩ | ⟨w, hphase, rfl⟩ | ⟨r, hphase, rfl⟩ |
    ⟨hphase, rfl⟩
  · exact Or.inl ⟨not_false, h⟩
  · exact Or.inl (fresh_finishWrite hout h hphase true)
  · exact Or.inl (fresh_finishRead (s := { s with
      serial := (s.serial.completeRead r.type).2
      consumed := s.consumed ++ s.serial.streamBuffer.take r.type.codec.size }) hout h hphase _)
  · exact Or.inr ⟨hphase, rfl⟩

theorem fresh_timeout [Double D] {o : SomTimeout} (hout : ¬ s.InMainLoop) (h : s.Fresh)
    (hstep : s.timeout c o = some s') : ¬ s'.InMainLoop ∧ s'.Fresh := by
  rcases timeout_eq_some hstep with ⟨-, -, rfl⟩ | ⟨r, need, -, hphase, rfl⟩ |
    ⟨w, b, left, -, hphase, rfl⟩
  · exact ⟨not_false, h⟩
  · exact fresh_finishRead hout h hphase {}
  · exact fresh_finishWrite hout h hphase false

/-! ## The start of the main loop -/

theorem Invariant.and [Double D] {A : SomTimeout → Prop} {P Q : Som D → Prop}
    (hP : Invariant c A P) (hQ : Invariant c A Q) : Invariant c A fun s => P s ∧ Q s where
  send h hstep := ⟨hP.send h.1 hstep, hQ.send h.2 hstep⟩
  receive h hstep := ⟨hP.receive h.1 hstep, hQ.receive h.2 hstep⟩
  done h hstep := ⟨hP.done h.1 hstep, hQ.done h.2 hstep⟩
  timeout ha h hstep := ⟨hP.timeout ha h.1 hstep, hQ.timeout ha h.2 hstep⟩

theorem Invariant.mono [Double D] {A B : SomTimeout → Prop} {P : Som D → Prop}
    (hP : Invariant c A P) (h : ∀ o, B o → A o) : Invariant c B P where
  send := hP.send
  receive := hP.receive
  done := hP.done
  timeout ho := hP.timeout (h _ ho)

theorem triggered_of_fresh [Double D] (h : s.Fresh) : Triggered c s := by
  obtain ⟨hiterations, hmanager⟩ := h
  constructor
  · rw [hmanager, hiterations]
    rfl
  · rw [hiterations]
    rfl

theorem replying_of_start [Double D] (hphase : s.phase = .startRead .rcRx) (h : s.Fresh)
    (hconsumed : s.consumed = []) (hsent : s.sent = []) : s.Replying where
  buffered := by
    apply Starts.buffered
    rw [hphase]
    intro r need heq
    obtain ⟨rfl, rfl⟩ := SomPhase.reading.inj heq
    rfl
  inMainLoop := by
    rw [InMainLoop, hphase]
    trivial
  consumed := by
    rw [hconsumed, reads, taken, hphase, h.1]
    rfl
  sent_left := by
    rw [hsent, left, hphase, h.1]
    rfl

theorem prompt_of_start [Double D] (hphase : s.phase = .startRead .rcRx) (h : s.Fresh)
    (hbuffer : s.serial.streamBuffer = []) : s.Prompt := by
  refine Prompt.of_starts ?_ ?_ ?_ hbuffer
  · rw [InMainLoop, hphase]
    trivial
  · intro r hr
    rw [reads, taken, hphase, h.1] at hr
    cases hr
  · rw [hphase]
    intro r need heq
    obtain ⟨rfl, rfl⟩ := SomPhase.reading.inj heq
    rfl

/-! ## A handshake in which nothing times out -/

/-- Where such a handshake stands: the flush drops the line and leaves nothing, and the first byte
read is the acknowledgement. -/
def Greeting (s : Som D) : Prop :=
  match s.phase with
  | .writing .handshake _ => s.consumed = flushLine ∧ s.serial.streamBuffer = []
  | .reading (.handshake _) need =>
    s.consumed = flushLine ∧ need + s.serial.streamBuffer.length = 1
  | .connected => s.serial.streamBuffer = []
  | .halted => False
  | _ => True

theorem greeting_send {b : UInt8} (h : s.Greeting) (hstep : s.send = some (b, s')) :
    s'.Greeting := by
  obtain ⟨w, left, hphase, rfl⟩ := send_eq_some.mp hstep
  rw [Greeting, hphase] at h
  cases w with
  | handshake => exact h
  | controlSurface imuPacket => trivial

theorem greeting_receive {piece : List UInt8} (h : s.Greeting)
    (hstep : s.receive c piece = some s') : s'.Greeting := by
  rcases receive_eq_some hstep with ⟨hphase, -, rfl⟩ | ⟨r, need, hphase, hlen, rfl⟩
  · rw [Greeting, hphase]
    trivial
  · rw [Greeting, hphase] at h
    cases r with
    | handshake attempt =>
      -- what the piece adds to the buffer, the read no longer needs
      refine ⟨h.1, ?_⟩
      show need - piece.length + (s.serial.streamBuffer ++ piece).length = 1
      rw [List.length_append]
      omega
    | rcRx => trivial
    | imu rcRx => trivial

/-- The flush finds the line and the byte read is the echo, so the handshake goes on. -/
theorem greeting_done [Double D] (hattempts : 0 < c.handshakeAttempts)
    (hterminator : c.handshakeTerminationStr = flushLine) (h : s.Greeting)
    (hflush : s.phase = .flushing → s.consumed = [] ∧ s.serial.streamBuffer <+: flushLine)
    (hecho : ∀ attempt, s.phase = .reading (.handshake attempt) 0 →
      s.serial.streamBuffer = [1])
    (hstep : s.done c = some s') : s'.Greeting := by
  rcases done_eq_some hstep with ⟨size, hphase, hsize, rfl⟩ | ⟨w, hphase, rfl⟩ |
    ⟨r, hphase, rfl⟩ | ⟨-, rfl⟩
  · -- the whole line has arrived, and nothing else
    obtain ⟨hconsumed, hline⟩ := hflush hphase
    rw [hterminator] at hsize
    obtain ⟨i, hi, rfl⟩ := (untilSize_eq_some_iff (by decide)).mp hsize
    have hlen := hi.end_le (by decide)
    have hbuffer : s.serial.streamBuffer = flushLine :=
      hline.eq_of_length (le_antisymm hline.length_le (by omega))
    have hseven : flushLine.length = 7 := rfl
    constructor
    · show s.consumed ++ s.serial.streamBuffer.take _ = flushLine
      rw [hconsumed, hbuffer, List.nil_append, List.take_of_length_le (by omega)]
    · show s.serial.streamBuffer.drop _ = []
      rw [hbuffer, List.drop_of_length_le (by omega)]
  · rw [Greeting, hphase] at h
    cases w with
    | handshake =>
      have hstart : (finishWrite c s .handshake true).phase = .startRead (.handshake 0) :=
        if_pos hattempts
      rw [Greeting, hstart]
      refine ⟨h.1, ?_⟩
      show 1 + s.serial.streamBuffer.length = 1
      rw [h.2]
      rfl
    | controlSurface imuPacket => trivial
  · cases r with
    | handshake attempt =>
      -- the first byte after the line is the echo
      have hbuffer := hecho attempt hphase
      have hpacket : kHandshakePacket = (s.serial.completeRead .handshake).1.packet := by
        rw [SerialController.completeRead, hbuffer]
        rfl
      show (finishHandshakeRead c _ attempt (s.serial.completeRead .handshake).1).Greeting
      unfold finishHandshakeRead
      rw [didTimeout_completeRead, if_neg Bool.false_ne_true, if_pos hpacket]
      show s.serial.streamBuffer.drop _ = []
      rw [hbuffer]
      rfl
    | rcRx => trivial
    | imu rcRx => trivial
  · trivial

end Som

end RcPlane
