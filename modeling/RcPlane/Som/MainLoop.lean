import RcPlane.Foundation.Automaton
import RcPlane.Som.SomController

/-!
# The SoM

`handshakeMCU` flushes the line, writes the handshake byte and reads single bytes until one of
them is the acknowledgement; `runMainLoop` reads the two packets, triggers the autopilot, and
writes the answer. The SoM is a party that sends single bytes and takes pieces of any size from
the line: the step relation of the whole system decides when, and which operations time out.

## Main definitions

* `SomPhase`, `Som`: the program counter and the memory, with the history of a run
* `Som.send`, `Som.receive`, `Som.done`, `Som.timeout`: the steps
* `Som.boot`, `Som.aligned`: the start of `handshakeMCU`, and the first iteration of `runMainLoop`
* `Som.reads`, `Som.calls`: the reads of the main loop, and the calls of the autopilot
* `Som.Invariant`: a property that the steps keep

## Main results

* `Som.done_eq_some` and its siblings: what each step can do
* `Som.triggered_invariant`: the answers are those of the autopilot on the packets returned
* `Som.looping_invariant`: the bytes consumed are those of the packets returned
* `Som.replying_invariant`: the bytes sent are those of the answers, unless a write times out
-/

namespace RcPlane

open Foundation

/-! ## The party -/

/-- The read under way: an attempt of the handshake, or a read of the main loop with what the
iteration has read before it. -/
inductive SomRead
  | handshake (attempt : ℕ)
  | rcRx
  | imu (rcRx : ReadResult .rcRx)

/-- The packet type that a read asks for. -/
def SomRead.type : SomRead → PacketType
  | handshake _ => .handshake
  | rcRx => .rcRx
  | imu _ => .imu

/-- The write under way. -/
inductive SomWrite
  | handshake
  | controlSurface (imuPacket : ImuPacket)

/-- The operation that times out. -/
inductive SomTimeout
  | flush
  | read
  | write
deriving DecidableEq, Repr

/-- The program counter: the operation under way, with the bytes left to write or the number of
bytes still to be transferred; `connected` once `handshakeMCU` has returned true, and `halted`
once it has returned false or an assertion has failed. -/
inductive SomPhase
  | flushing
  | writing (w : SomWrite) (left : List UInt8)
  | reading (r : SomRead) (need : ℕ)
  | connected
  | halted

/-- One iteration of the main loop, once its packets are read: what the reads reported, and the
answer. -/
structure Iteration where
  rcRx : ReadResult .rcRx
  imu : ReadResult .imu
  reply : ControlSurfacePacket

/-- What a call of `readPacket` reported, with its packet type. -/
abbrev Read := (t : PacketType) × ReadResult t

/-- The two reads of an iteration. -/
def Iteration.reads (i : Iteration) : List Read := [⟨.rcRx, i.rcRx⟩, ⟨.imu, i.imu⟩]

/-- The SoM: its program counter and memory, and the history of the run. -/
structure Som (D : Type) where
  phase : SomPhase
  serial : SerialController := {}
  controller : SomController D
  /-- History: every byte taken out of the buffer. -/
  consumed : List UInt8 := []
  /-- History: every byte sent. -/
  sent : List UInt8 := []
  /-- History: the iterations of the main loop. -/
  iterations : List Iteration := []

/-- The handshake byte. -/
def kHandshakePacket : HandshakePacket := ⟨1⟩

/-- The start of a read. -/
def SomPhase.startRead (r : SomRead) : SomPhase := .reading r r.type.codec.size

namespace Som

variable {D : Type}

/-- The start of `handshakeMCU`. -/
def boot [Double D] : Som D where
  phase := .flushing
  controller := SomController.initial

/-- The start of the first iteration of `runMainLoop`, with nothing read or written before it but
what the counters say. -/
def aligned [Double D] (debugMessage : DebugMessage) : Som D where
  phase := .startRead .rcRx
  controller := { (SomController.initial : SomController D) with debugMessage := debugMessage }

variable (c : SomConfig D)

/-- The phase at an attempt of the handshake. -/
def attemptPhase (attempt : ℕ) : SomPhase :=
  if attempt < c.handshakeAttempts then .startRead (.handshake attempt) else .halted

/-- What follows a read of the handshake. A byte that is not the acknowledgement is not counted. -/
def finishHandshakeRead (s : Som D) (attempt : ℕ) (result : ReadResult .handshake) : Som D :=
  if result.didTimeout then
    -- a timeout uses up an attempt
    { s with controller := s.controller.countRead true, phase := attemptPhase c (attempt + 1) }
  else if kHandshakePacket = result.packet then
    { s with controller := s.controller.countRead false, phase := .connected }
  else { s with phase := attemptPhase c (attempt + 1) }

/-- What follows the first read of an iteration. -/
def finishRcRxRead (s : Som D) (result : ReadResult .rcRx) : Som D :=
  { s with
    controller := s.controller.countRead result.didTimeout
    phase := .startRead (.imu result) }

/-- What follows the second read of an iteration: the autopilot is triggered on what the two reads
reported, and its answer is written. -/
def finishImuRead [Double D] (s : Som D) (rcRx : ReadResult .rcRx)
    (result : ReadResult .imu) : Som D :=
  -- the packets are used whether or not the reads timed out
  let r := (s.controller.countRead result.didTimeout).trigger c
    ⟨c.outOfRange s.iterations.length, rcRx.packet, result.packet⟩
  { s with
    controller := r.1
    iterations := s.iterations ++ [⟨rcRx, result, r.2⟩]
    phase := .writing (.controlSurface result.packet) (ControlSurfacePacket.codec.encode r.2) }

/-- What follows a read, given what it reported. -/
def finishRead [Double D] (s : Som D) : (r : SomRead) → ReadResult r.type → Som D
  | .handshake attempt, result => finishHandshakeRead c s attempt result
  | .rcRx, result => finishRcRxRead s result
  | .imu rcRx, result => finishImuRead c s rcRx result

/-- What follows a write that was handed over, or timed out. -/
def finishWrite (s : Som D) : SomWrite → Bool → Som D
  | .handshake, true =>
    -- the only write whose outcome decides how to go on
    { s with controller := s.controller.countWrite true, phase := attemptPhase c 0 }
  | .handshake, false => { s with phase := .halted }
  | .controlSurface imuPacket, written =>
    { s with
      controller := s.controller.finishIteration c imuPacket written
      phase := .startRead .rcRx }

/-- The next byte of the write under way. -/
def send (s : Som D) : Option (UInt8 × Som D) :=
  match s.phase with
  | .writing w (b :: left) =>
    some (b, { s with phase := .writing w left, sent := s.sent ++ [b] })
  | _ => none

/-- A piece for the read or the flush under way: for a read no more than it needs, for a flush any
number of bytes as long as the terminator has not been seen. -/
def receive (s : Som D) (piece : List UInt8) : Option (Som D) :=
  match s.phase with
  | .flushing =>
    if SerialController.untilSize c.handshakeTerminationStr s.serial.streamBuffer = none then
      some { s with serial := s.serial.append piece }
    else none
  | .reading r need =>
    if piece.length ≤ need then
      some { s with serial := s.serial.append piece, phase := .reading r (need - piece.length) }
    else none
  | _ => none

/-- The completion handler of a flush that has found the terminator. -/
def finishFlush (s : Som D) (size : ℕ) : Som D :=
  { s with
    serial := s.serial.completeFlush size
    consumed := s.consumed ++ s.serial.streamBuffer.take (size * 2)
    phase := .writing .handshake (HandshakePacket.codec.encode kHandshakePacket) }

/-- The completion handler of a read, and what follows it. -/
def completeRead [Double D] (s : Som D) (r : SomRead) : Som D :=
  finishRead c
    { s with
      serial := (s.serial.completeRead r.type).2
      consumed := s.consumed ++ s.serial.streamBuffer.take r.type.codec.size }
    r (s.serial.completeRead r.type).1

/-- The operation under way is complete, and the program proceeds to the next. -/
def done [Double D] (s : Som D) : Option (Som D) :=
  match s.phase with
  | .flushing =>
    (SerialController.untilSize c.handshakeTerminationStr s.serial.streamBuffer).map
      fun size => finishFlush s size
  | .writing w [] => some (finishWrite c s w true)
  | .reading r 0 => some (completeRead c s r)
  | .connected =>
    some { s with controller := s.controller.sendTelemetry, phase := .startRead .rcRx }
  | _ => none

/-- The operation under way, which is of the given kind, times out before it is complete. -/
def timeout [Double D] (s : Som D) (o : SomTimeout) : Option (Som D) :=
  match o, s.phase with
  | .flush, .flushing =>
    if SerialController.untilSize c.handshakeTerminationStr s.serial.streamBuffer = none then
      some { s with phase := .halted }
    else none
  | .read, .reading r (_ + 1) => some (finishRead c s r {})
  | .write, .writing w (_ :: _) => some (finishWrite c s w false)
  | _, _ => none

/-! ## What a step can do -/

variable {c}

theorem send_eq_some {s s' : Som D} {b : UInt8} :
    s.send = some (b, s') ↔ ∃ w left, s.phase = .writing w (b :: left) ∧
      s' = { s with phase := .writing w left, sent := s.sent ++ [b] } := by
  unfold send
  constructor
  · intro h
    split at h
    · next w b' left hphase =>
      obtain ⟨rfl, rfl⟩ := Prod.mk.inj (Option.some.inj h)
      exact ⟨w, left, hphase, rfl⟩
    · cases h
  · rintro ⟨w, left, hphase, rfl⟩
    rw [hphase]

theorem receive_eq_some {s s' : Som D} {piece : List UInt8} (h : s.receive c piece = some s') :
    (s.phase = .flushing ∧
      SerialController.untilSize c.handshakeTerminationStr s.serial.streamBuffer = none ∧
      s' = { s with serial := s.serial.append piece }) ∨
    ∃ r need, s.phase = .reading r need ∧ piece.length ≤ need ∧
      s' = { s with
        serial := s.serial.append piece
        phase := .reading r (need - piece.length) } := by
  unfold receive at h
  split at h
  · next hphase =>
    split_ifs at h with hnone
    exact Or.inl ⟨hphase, hnone, (Option.some.inj h).symm⟩
  · next r need hphase =>
    split_ifs at h with hlen
    exact Or.inr ⟨r, need, hphase, hlen, (Option.some.inj h).symm⟩
  · cases h

theorem done_eq_some [Double D] {s s' : Som D} (h : s.done c = some s') :
    (∃ size, s.phase = .flushing ∧
      SerialController.untilSize c.handshakeTerminationStr s.serial.streamBuffer = some size ∧
      s' = s.finishFlush size) ∨
    (∃ w, s.phase = .writing w [] ∧ s' = finishWrite c s w true) ∨
    (∃ r, s.phase = .reading r 0 ∧ s' = completeRead c s r) ∨
    (s.phase = .connected ∧
      s' = { s with controller := s.controller.sendTelemetry, phase := .startRead .rcRx }) := by
  unfold done at h
  split at h
  · next hphase =>
    obtain ⟨size, hsize, rfl⟩ := Option.map_eq_some_iff.mp h
    exact Or.inl ⟨size, hphase, hsize, rfl⟩
  · next w hphase => exact Or.inr (Or.inl ⟨w, hphase, (Option.some.inj h).symm⟩)
  · next r hphase => exact Or.inr (Or.inr (Or.inl ⟨r, hphase, (Option.some.inj h).symm⟩))
  · next hphase => exact Or.inr (Or.inr (Or.inr ⟨hphase, (Option.some.inj h).symm⟩))
  · cases h

theorem timeout_eq_some [Double D] {s s' : Som D} {o : SomTimeout} (h : s.timeout c o = some s') :
    (o = .flush ∧ s.phase = .flushing ∧ s' = { s with phase := .halted }) ∨
    (∃ r need, o = .read ∧ s.phase = .reading r (need + 1) ∧ s' = finishRead c s r {}) ∨
    ∃ w b left, o = .write ∧ s.phase = .writing w (b :: left) ∧ s' = finishWrite c s w false := by
  unfold timeout at h
  split at h
  · next hphase =>
    split_ifs at h
    exact Or.inl ⟨rfl, hphase, (Option.some.inj h).symm⟩
  · next r need hphase =>
    exact Or.inr (Or.inl ⟨r, need, rfl, hphase, (Option.some.inj h).symm⟩)
  · next w b left hphase =>
    exact Or.inr (Or.inr ⟨w, b, left, rfl, hphase, (Option.some.inj h).symm⟩)
  · cases h

/-- What follows a read takes nothing out of the buffer and sends nothing. -/
theorem traffic_finishRead [Double D] (s : Som D) (r : SomRead) (result : ReadResult r.type) :
    (finishRead c s r result).consumed = s.consumed ∧
      (finishRead c s r result).serial = s.serial ∧ (finishRead c s r result).sent = s.sent := by
  cases r with
  | handshake attempt =>
    show (finishHandshakeRead c s attempt result).consumed = _ ∧
      (finishHandshakeRead c s attempt result).serial = _ ∧
      (finishHandshakeRead c s attempt result).sent = _
    unfold finishHandshakeRead
    split_ifs
    -- a timeout, the acknowledgement, or another byte
    · exact ⟨rfl, rfl, rfl⟩
    · exact ⟨rfl, rfl, rfl⟩
    · exact ⟨rfl, rfl, rfl⟩
  | rcRx => exact ⟨rfl, rfl, rfl⟩
  | imu rcRx => exact ⟨rfl, rfl, rfl⟩

theorem traffic_finishWrite (s : Som D) (w : SomWrite) (written : Bool) :
    (finishWrite c s w written).consumed = s.consumed ∧
      (finishWrite c s w written).serial = s.serial ∧
      (finishWrite c s w written).sent = s.sent := by
  cases w with
  | handshake => cases written <;> exact ⟨rfl, rfl, rfl⟩
  | controlSurface imuPacket => exact ⟨rfl, rfl, rfl⟩

/-- Going on to the next operation moves bytes out of the buffer at most. -/
theorem traffic_done [Double D] {s s' : Som D} (h : s.done c = some s') :
    s.consumed ++ s.serial.streamBuffer = s'.consumed ++ s'.serial.streamBuffer ∧
      s'.sent = s.sent := by
  rcases done_eq_some h with ⟨size, -, -, rfl⟩ | ⟨w, -, rfl⟩ | ⟨r, -, rfl⟩ | ⟨-, rfl⟩
  · -- the flush drops the front of the buffer, the terminator and more
    refine ⟨?_, rfl⟩
    show _ = (s.consumed ++ s.serial.streamBuffer.take _) ++ s.serial.streamBuffer.drop _
    rw [List.append_assoc, List.take_append_drop]
  · obtain ⟨hconsumed, hserial, hsent⟩ := traffic_finishWrite (c := c) s w true
    rw [hconsumed, hserial]
    exact ⟨rfl, hsent⟩
  · obtain ⟨hconsumed, hserial, hsent⟩ := traffic_finishRead (c := c) (s := { s with
      serial := (s.serial.completeRead r.type).2
      consumed := s.consumed ++ s.serial.streamBuffer.take r.type.codec.size })
      r (s.serial.completeRead r.type).1
    refine ⟨?_, hsent⟩
    -- the read takes its packet off the front of the buffer
    rw [completeRead, hconsumed, hserial]
    show _ = (s.consumed ++ s.serial.streamBuffer.take _) ++ s.serial.streamBuffer.drop _
    rw [List.append_assoc, List.take_append_drop]
  · exact ⟨rfl, rfl⟩

theorem traffic_timeout [Double D] {s s' : Som D} {o : SomTimeout} (h : s.timeout c o = some s') :
    s.consumed ++ s.serial.streamBuffer = s'.consumed ++ s'.serial.streamBuffer ∧
      s'.sent = s.sent := by
  rcases timeout_eq_some h with ⟨-, -, rfl⟩ | ⟨r, need, -, -, rfl⟩ | ⟨w, b, left, -, -, rfl⟩
  · exact ⟨rfl, rfl⟩
  · obtain ⟨hconsumed, hserial, hsent⟩ := traffic_finishRead (c := c) s r {}
    rw [hconsumed, hserial]
    exact ⟨rfl, hsent⟩
  · obtain ⟨hconsumed, hserial, hsent⟩ := traffic_finishWrite (c := c) s w false
    rw [hconsumed, hserial]
    exact ⟨rfl, hsent⟩

/-- A property of the SoM that its steps keep, those timeouts that are admitted included. -/
structure Invariant [Double D] (c : SomConfig D) (A : SomTimeout → Prop) (P : Som D → Prop) :
    Prop where
  send : ∀ {s s' b}, P s → s.send = some (b, s') → P s'
  receive : ∀ {s s' piece}, P s → s.receive c piece = some s' → P s'
  done : ∀ {s s'}, P s → s.done c = some s' → P s'
  timeout : ∀ {s s' o}, A o → P s → s.timeout c o = some s' → P s'

/-! ## The buffer -/

/-- What the read under way still needs and what the buffer holds make up a packet. -/
def Buffered (s : Som D) : Prop :=
  ∀ r need, s.phase = .reading r need →
    need ≤ r.type.codec.size ∧ r.type.codec.size ≤ need + s.serial.streamBuffer.length

/-- A read that starts needs everything. -/
def Starts (phase : SomPhase) : Prop := ∀ r need, phase = .reading r need → need = r.type.codec.size

theorem starts_attemptPhase (attempt : ℕ) : Starts (attemptPhase c attempt) := by
  intro r need h
  unfold attemptPhase at h
  split_ifs at h
  obtain ⟨rfl, rfl⟩ := SomPhase.reading.inj h
  rfl

theorem starts_finishRead [Double D] (s : Som D) (r : SomRead) (result : ReadResult r.type) :
    Starts (finishRead c s r result).phase := by
  cases r with
  | handshake attempt =>
    show Starts (finishHandshakeRead c s attempt result).phase
    unfold finishHandshakeRead
    split_ifs
    · exact starts_attemptPhase _
    · intro r need h
      cases h
    · exact starts_attemptPhase _
  | rcRx =>
    intro r need h
    obtain ⟨rfl, rfl⟩ := SomPhase.reading.inj h
    rfl
  | imu rcRx =>
    intro r need h
    cases h

theorem starts_finishWrite (s : Som D) (w : SomWrite) (written : Bool) :
    Starts (finishWrite c s w written).phase := by
  cases w with
  | handshake =>
    cases written with
    | false =>
      intro r need h
      cases h
    | true => exact starts_attemptPhase _
  | controlSurface imuPacket =>
    intro r need h
    obtain ⟨rfl, rfl⟩ := SomPhase.reading.inj h
    rfl

/-- Whatever follows a completed operation, if it is a read, starts it. -/
theorem starts_done [Double D] {s s' : Som D} (h : s.done c = some s') : Starts s'.phase := by
  rcases done_eq_some h with ⟨size, -, -, rfl⟩ | ⟨w, -, rfl⟩ | ⟨r, -, rfl⟩ | ⟨-, rfl⟩
  · intro r need hphase
    cases hphase
  · exact starts_finishWrite s w true
  · exact starts_finishRead _ r _
  · intro r need hphase
    obtain ⟨rfl, rfl⟩ := SomPhase.reading.inj hphase
    rfl

theorem Starts.buffered {s : Som D} (h : Starts s.phase) : s.Buffered := by
  intro r need hphase
  obtain rfl := h r need hphase
  exact ⟨le_refl _, Nat.le_add_right _ _⟩

/-- Every step keeps the buffer in step with the read under way. -/
theorem buffered_invariant [Double D] (c : SomConfig D) : Invariant c (fun _ => True) Buffered where
  send {s s' b} _ hstep := by
    obtain ⟨w, left, -, rfl⟩ := send_eq_some.mp hstep
    intro r need hphase
    cases hphase
  receive {s s' piece} h hstep := by
    rcases receive_eq_some hstep with ⟨hphase, -, rfl⟩ | ⟨r, need, hphase, hlen, rfl⟩
    · intro r need hphase'
      rw [hphase] at hphase'
      cases hphase'
    · -- what the piece adds to the buffer, the read no longer needs
      intro r' need' hphase'
      obtain ⟨rfl, rfl⟩ := SomPhase.reading.inj hphase'
      obtain ⟨hneed, hsize⟩ := h r need hphase
      rw [SerialController.streamBuffer_append, List.length_append]
      omega
  done {s s'} _ hstep := (starts_done hstep).buffered
  timeout {s s' o} _ _ hstep := by
    rcases timeout_eq_some hstep with ⟨-, -, rfl⟩ | ⟨r, need, -, -, rfl⟩ | ⟨w, b, left, -, -, rfl⟩
    · intro r need hphase
      cases hphase
    · exact (starts_finishRead s r {}).buffered
    · exact (starts_finishWrite s w false).buffered

/-! ## The autopilot's calls -/

variable (c) in
/-- The calls of the autopilot in some iterations. -/
def calls (iterations : List Iteration) : List (TriggerCall D) :=
  iterations.mapIdx fun n i => ⟨c.outOfRange n, i.rcRx.packet, i.imu.packet⟩

/-- The autopilot is in the state that the calls of the iterations lead to, and the answers are
its own. -/
structure Triggered [Double D] (c : SomConfig D) (s : Som D) : Prop where
  manager : s.controller.autopilotManager =
    (AutopilotManager.automaton c.promote c.autopilot).after (calls c s.iterations)
  replies : s.iterations.map Iteration.reply =
    (AutopilotManager.automaton c.promote c.autopilot).outputs (calls c s.iterations)

theorem calls_snoc (iterations : List Iteration) (i : Iteration) :
    calls c (iterations ++ [i]) = calls c iterations ++
      [⟨c.outOfRange iterations.length, i.rcRx.packet, i.imu.packet⟩] :=
  List.mapIdx_concat

/-- The second read of an iteration triggers the autopilot. -/
theorem Triggered.finishImuRead [Double D] {s : Som D} (h : Triggered c s)
    (rcRx : ReadResult .rcRx) (result : ReadResult .imu) :
    Triggered c (finishImuRead c s rcRx result) := by
  obtain ⟨hmanager, hreplies⟩ := h
  constructor
  · show (SomController.trigger c _ _).1.autopilotManager = Automaton.after _ (calls c (_ ++ [_]))
    rw [SomController.autopilotManager_trigger, SomController.autopilotManager_countRead,
      hmanager, calls_snoc, Automaton.after_snoc]
    rfl
  · show (s.iterations ++ [_]).map Iteration.reply = Automaton.outputs _ (calls c (_ ++ [_]))
    rw [calls_snoc, Automaton.outputs_snoc, List.map_append, hreplies, ← hmanager]
    rfl

/-- No other read concerns it. -/
theorem Triggered.finishRead [Double D] {s : Som D} (h : Triggered c s) (r : SomRead)
    (result : ReadResult r.type) : Triggered c (finishRead c s r result) := by
  cases r with
  | handshake attempt =>
    show Triggered c (finishHandshakeRead c s attempt result)
    unfold finishHandshakeRead
    split_ifs
    · exact ⟨h.manager, h.replies⟩
    · exact ⟨h.manager, h.replies⟩
    · exact ⟨h.manager, h.replies⟩
  | rcRx => exact ⟨h.manager, h.replies⟩
  | imu rcRx => exact h.finishImuRead rcRx result

theorem Triggered.finishWrite [Double D] {s : Som D} (h : Triggered c s) (w : SomWrite)
    (written : Bool) : Triggered c (finishWrite c s w written) := by
  cases w with
  | handshake => cases written <;> exact ⟨h.manager, h.replies⟩
  | controlSurface imuPacket => exact ⟨h.manager, h.replies⟩

/-- Every step keeps to the autopilot. -/
theorem triggered_invariant [Double D] (c : SomConfig D) :
    Invariant c (fun _ => True) (Triggered c) where
  send {s s' b} h hstep := by
    obtain ⟨w, left, -, rfl⟩ := send_eq_some.mp hstep
    exact ⟨h.manager, h.replies⟩
  receive {s s' piece} h hstep := by
    rcases receive_eq_some hstep with ⟨-, -, rfl⟩ | ⟨r, need, -, -, rfl⟩
    · exact ⟨h.manager, h.replies⟩
    · exact ⟨h.manager, h.replies⟩
  done {s s'} h hstep := by
    rcases done_eq_some hstep with ⟨size, -, -, rfl⟩ | ⟨w, -, rfl⟩ | ⟨r, -, rfl⟩ | ⟨-, rfl⟩
    · exact ⟨h.manager, h.replies⟩
    · exact h.finishWrite w true
    · have hs : Triggered c { s with
          serial := (s.serial.completeRead r.type).2
          consumed := s.consumed ++ s.serial.streamBuffer.take r.type.codec.size } :=
        ⟨h.manager, h.replies⟩
      exact hs.finishRead r _
    · exact ⟨h.manager, h.replies⟩
  timeout {s s' o} _ h hstep := by
    rcases timeout_eq_some hstep with ⟨-, -, rfl⟩ | ⟨r, need, -, -, rfl⟩ | ⟨w, b, left, -, -, rfl⟩
    · exact ⟨h.manager, h.replies⟩
    · exact h.finishRead r {}
    · exact h.finishWrite w false

/-- The answer of an iteration is the autopilot's, in the state that the iterations before it lead
to. -/
theorem reply_of_triggered [Double D] {s : Som D} (h : Triggered c s)
    {before after : List Iteration} {i : Iteration}
    (hiterations : s.iterations = before ++ i :: after) :
    i.reply = (AutopilotManager.trigger c.promote c.autopilot
      ((AutopilotManager.automaton c.promote c.autopilot).after (calls c before))
      ⟨c.outOfRange before.length, i.rcRx.packet, i.imu.packet⟩).2 := by
  -- the call of the iteration follows those of the iterations before it
  obtain ⟨rest, hcalls⟩ : ∃ rest, calls c (before ++ i :: after) = calls c before ++
      ⟨c.outOfRange before.length, i.rcRx.packet, i.imu.packet⟩ :: rest := by
    rw [calls, List.mapIdx_append, List.mapIdx_cons, Nat.zero_add]
    exact ⟨_, rfl⟩
  have hlen : (calls c before).length = before.length := List.length_mapIdx
  have hreply : (s.iterations.map Iteration.reply)[before.length]? = some i.reply := by
    rw [hiterations, List.map_append, List.map_cons, List.getElem?_append_right (by simp)]
    simp
  rw [h.replies, hiterations, hcalls, ← hlen, Automaton.getElem?_outputs, hlen] at hreply
  exact (Option.some.inj hreply).symm

theorem triggered_aligned [Double D] (c : SomConfig D) (debugMessage : DebugMessage) :
    Triggered c (aligned debugMessage) := ⟨rfl, rfl⟩

/-! ## The bytes consumed -/

/-- The read of the current iteration that is over, while the other is under way. -/
def taken (s : Som D) : List Read :=
  match s.phase with
  | .reading (.imu rcRx) _ => [⟨.rcRx, rcRx⟩]
  | _ => []

/-- The reads of the main loop, in order. -/
def reads (s : Som D) : List Read := s.iterations.flatMap Iteration.reads ++ s.taken

/-- The program is in the main loop. -/
def InMainLoop (s : Som D) : Prop :=
  match s.phase with
  | .reading .rcRx _ => True
  | .reading (.imu _) _ => True
  | .writing (.controlSurface _) _ => True
  | _ => False

/-! ### Steps of the main loop -/

theorem send_of_inMainLoop {s s' : Som D} {b : UInt8} (hloop : s.InMainLoop)
    (h : s.send = some (b, s')) :
    s'.InMainLoop ∧ s'.reads = s.reads ∧ s'.consumed = s.consumed := by
  obtain ⟨w, rest, hphase, rfl⟩ := send_eq_some.mp h
  rw [InMainLoop, hphase] at hloop
  cases w with
  | handshake => exact hloop.elim
  | controlSurface imuPacket =>
    refine ⟨trivial, ?_, rfl⟩
    rw [reads, reads, taken, taken, hphase]

theorem receive_of_inMainLoop {s s' : Som D} {piece : List UInt8} (hloop : s.InMainLoop)
    (h : s.receive c piece = some s') :
    s'.InMainLoop ∧ s'.reads = s.reads ∧ s'.consumed = s.consumed := by
  rcases receive_eq_some h with ⟨hphase, -, rfl⟩ | ⟨r, need, hphase, -, rfl⟩
  · rw [InMainLoop, hphase] at hloop
    exact hloop.elim
  · rw [InMainLoop, hphase] at hloop
    cases r with
    | handshake attempt => exact hloop.elim
    | rcRx =>
      refine ⟨trivial, ?_, rfl⟩
      rw [reads, reads, taken, taken, hphase]
    | imu rcRx =>
      refine ⟨trivial, ?_, rfl⟩
      rw [reads, reads, taken, taken, hphase]

/-- A read of the main loop is recorded, and the main loop goes on. -/
theorem reads_finishRead [Double D] {s : Som D} {r : SomRead} {need : ℕ}
    (hphase : s.phase = .reading r need) (hloop : s.InMainLoop) (result : ReadResult r.type) :
    (finishRead c s r result).InMainLoop ∧
      (finishRead c s r result).reads = s.reads ++ [⟨r.type, result⟩] := by
  cases r with
  | handshake attempt =>
    rw [InMainLoop, hphase] at hloop
    exact hloop.elim
  | rcRx =>
    refine ⟨trivial, ?_⟩
    show s.iterations.flatMap Iteration.reads ++ [⟨.rcRx, result⟩] = _
    rw [reads, taken, hphase, List.append_nil]
    rfl
  | imu rcRx =>
    -- the iteration is over, and takes both of its reads with it
    refine ⟨trivial, ?_⟩
    show (s.iterations ++ [_]).flatMap Iteration.reads ++ [] = _
    rw [reads, taken, hphase, List.flatMap_append, List.flatMap_singleton, List.append_nil,
      List.append_assoc]
    rfl

theorem reads_finishWrite {s : Som D} {w : SomWrite} {rest : List UInt8}
    (hphase : s.phase = .writing w rest) (hloop : s.InMainLoop) (written : Bool) :
    (finishWrite c s w written).InMainLoop ∧ (finishWrite c s w written).reads = s.reads := by
  rw [InMainLoop, hphase] at hloop
  cases w with
  | handshake => exact hloop.elim
  | controlSurface imuPacket =>
    refine ⟨trivial, ?_⟩
    rw [reads, reads, taken, taken, hphase]
    rfl

/-- In the main loop the operation that completes is a write, or a read that returns the front of
the buffer. -/
theorem done_of_inMainLoop [Double D] {s s' : Som D} (hloop : s.InMainLoop)
    (h : s.done c = some s') :
    s'.InMainLoop ∧
      ((∃ w, s.phase = .writing w [] ∧ s'.reads = s.reads ∧ s'.consumed = s.consumed ∧
        s'.serial = s.serial) ∨
      ∃ r, s.phase = .reading r 0 ∧
        s'.reads = s.reads ++ [⟨r.type, (s.serial.completeRead r.type).1⟩] ∧
        s'.consumed = s.consumed ++ s.serial.streamBuffer.take r.type.codec.size ∧
        s'.serial = (s.serial.completeRead r.type).2) := by
  rcases done_eq_some h with ⟨size, hphase, -, rfl⟩ | ⟨w, hphase, rfl⟩ | ⟨r, hphase, rfl⟩ |
    ⟨hphase, rfl⟩
  -- a flush and a connection are not in the main loop
  · rw [InMainLoop, hphase] at hloop
    exact hloop.elim
  · obtain ⟨hloop', hreads⟩ := reads_finishWrite (c := c) hphase hloop true
    obtain ⟨hconsumed, hserial, -⟩ := traffic_finishWrite (c := c) s w true
    exact ⟨hloop', Or.inl ⟨w, hphase, hreads, hconsumed, hserial⟩⟩
  · obtain ⟨hloop', hreads⟩ := reads_finishRead (c := c)
      (s := { s with
        serial := (s.serial.completeRead r.type).2
        consumed := s.consumed ++ s.serial.streamBuffer.take r.type.codec.size })
      hphase hloop (s.serial.completeRead r.type).1
    obtain ⟨hconsumed, hserial, -⟩ := traffic_finishRead (c := c)
      (s := { s with
        serial := (s.serial.completeRead r.type).2
        consumed := s.consumed ++ s.serial.streamBuffer.take r.type.codec.size })
      r (s.serial.completeRead r.type).1
    exact ⟨hloop', Or.inr ⟨r, hphase, hreads, hconsumed, hserial⟩⟩
  · rw [InMainLoop, hphase] at hloop
    exact hloop.elim

/-- In the main loop the operation that times out is a write, or a read that returns nothing. -/
theorem timeout_of_inMainLoop [Double D] {s s' : Som D} {o : SomTimeout} (hloop : s.InMainLoop)
    (h : s.timeout c o = some s') :
    s'.InMainLoop ∧ s'.consumed = s.consumed ∧
      ((o = .write ∧ s'.reads = s.reads) ∨
        ∃ r : SomRead, o = .read ∧ s'.reads = s.reads ++ [⟨r.type, {}⟩]) := by
  rcases timeout_eq_some h with ⟨-, hphase, rfl⟩ | ⟨r, need, ho, hphase, rfl⟩ |
    ⟨w, b, rest, ho, hphase, rfl⟩
  · rw [InMainLoop, hphase] at hloop
    exact hloop.elim
  · obtain ⟨hloop', hreads⟩ := reads_finishRead (c := c) hphase hloop {}
    exact ⟨hloop', (traffic_finishRead s r {}).1, Or.inr ⟨r, ho, hreads⟩⟩
  · obtain ⟨hloop', hreads⟩ := reads_finishWrite (c := c) hphase hloop false
    exact ⟨hloop', (traffic_finishWrite s w false).1, Or.inl ⟨ho, hreads⟩⟩

/-! ### Consumption -/

/-- In the main loop, and the bytes consumed are those of the packets that its reads returned. -/
structure Looping (s : Som D) : Prop where
  buffered : s.Buffered
  inMainLoop : s.InMainLoop
  consumed : s.consumed = SerialController.returnedBytes s.reads

theorem returnedBytes_snoc (reads : List Read) (r : Read) :
    SerialController.returnedBytes (reads ++ [r]) =
      SerialController.returnedBytes reads ++ r.2.bytes := by
  simp [SerialController.returnedBytes]

theorem looping_aligned [Double D] (debugMessage : DebugMessage) :
    Looping (aligned debugMessage : Som D) where
  buffered r need h := by
    obtain ⟨rfl, rfl⟩ := SomPhase.reading.inj h
    exact ⟨le_refl _, Nat.le_add_right _ _⟩
  inMainLoop := trivial
  consumed := rfl

/-- Every step of the main loop consumes what its reads return. -/
theorem looping_invariant [Double D] (c : SomConfig D) :
    Invariant c (fun _ => True) Looping where
  send {s s' b} h hstep := by
    obtain ⟨hloop, hreads, hconsumed⟩ := send_of_inMainLoop h.inMainLoop hstep
    refine ⟨(buffered_invariant c).send h.buffered hstep, hloop, ?_⟩
    rw [hconsumed, hreads, h.consumed]
  receive {s s' piece} h hstep := by
    obtain ⟨hloop, hreads, hconsumed⟩ := receive_of_inMainLoop h.inMainLoop hstep
    refine ⟨(buffered_invariant c).receive h.buffered hstep, hloop, ?_⟩
    rw [hconsumed, hreads, h.consumed]
  done {s s'} h hstep := by
    obtain ⟨hloop, hcases⟩ := done_of_inMainLoop h.inMainLoop hstep
    refine ⟨(buffered_invariant c).done h.buffered hstep, hloop, ?_⟩
    rcases hcases with ⟨w, -, hreads, hconsumed, -⟩ | ⟨r, hphase, hreads, hconsumed, -⟩
    · rw [hconsumed, hreads, h.consumed]
    · -- the whole packet is in the buffer, so what is taken out of it is what is returned
      obtain ⟨-, hsize⟩ := h.buffered r 0 hphase
      rw [Nat.zero_add] at hsize
      rw [hconsumed, hreads, returnedBytes_snoc, SerialController.bytes_completeRead hsize,
        h.consumed]
  timeout {s s' o} _ h hstep := by
    obtain ⟨hloop, hconsumed, hcases⟩ := timeout_of_inMainLoop h.inMainLoop hstep
    refine ⟨(buffered_invariant c).timeout trivial h.buffered hstep, hloop, ?_⟩
    rcases hcases with ⟨-, hreads⟩ | ⟨r, -, hreads⟩
    · rw [hconsumed, hreads, h.consumed]
    · -- a read that times out returns nothing, and leaves the buffer as it is
      rw [hconsumed, hreads, returnedBytes_snoc, h.consumed]
      exact (List.append_nil _).symm

/-! ### Runs without timeouts -/

/-- In the main loop, no read has timed out, and the buffer holds nothing but what the read under
way has transferred. -/
structure Prompt (s : Som D) : Prop where
  inMainLoop : s.InMainLoop
  reads : ∀ r ∈ s.reads, r.2.didTimeout = false
  reading : ∀ r need, s.phase = .reading r need →
    need + s.serial.streamBuffer.length = r.type.codec.size
  writing : ∀ w rest, s.phase = .writing w rest → s.serial.streamBuffer = []

theorem prompt_aligned [Double D] (debugMessage : DebugMessage) :
    Prompt (aligned debugMessage : Som D) where
  inMainLoop := trivial
  reads r h := by cases h
  reading r need h := by
    obtain ⟨rfl, rfl⟩ := SomPhase.reading.inj h
    rfl
  writing w rest h := by cases h

/-- What follows a completed operation finds the buffer empty. -/
theorem Prompt.of_starts {s : Som D} (hloop : s.InMainLoop)
    (hreads : ∀ r ∈ s.reads, r.2.didTimeout = false) (hphase : Starts s.phase)
    (hbuffer : s.serial.streamBuffer = []) : s.Prompt where
  inMainLoop := hloop
  reads := hreads
  reading r need h := by rw [hphase r need h, hbuffer, List.length_nil, Nat.add_zero]
  writing _ _ _ := hbuffer

theorem prompt_invariant [Double D] (c : SomConfig D) : Invariant c (fun _ => False) Prompt where
  send {s s' b} h hstep := by
    obtain ⟨hloop, hreads, -⟩ := send_of_inMainLoop h.inMainLoop hstep
    obtain ⟨w, rest, hphase, rfl⟩ := send_eq_some.mp hstep
    refine ⟨hloop, fun r hr => h.reads r (hreads ▸ hr), ?_, ?_⟩
    · intro r need hphase'
      cases hphase'
    · intro w' rest' _
      exact h.writing w _ hphase
  receive {s s' piece} h hstep := by
    obtain ⟨hloop, hreads, -⟩ := receive_of_inMainLoop h.inMainLoop hstep
    rcases receive_eq_some hstep with ⟨hphase, -, rfl⟩ | ⟨r, need, hphase, hlen, rfl⟩
    · have hin := h.inMainLoop
      rw [InMainLoop, hphase] at hin
      exact hin.elim
    · have hsize := h.reading r need hphase
      refine ⟨hloop, fun r hr => h.reads r (hreads ▸ hr), ?_, ?_⟩
      · intro r' need' hphase'
        -- what the piece adds to the buffer the read no longer needs
        obtain ⟨rfl, rfl⟩ := SomPhase.reading.inj hphase'
        rw [SerialController.streamBuffer_append, List.length_append]
        omega
      · intro w rest hphase'
        cases hphase'
  done {s s'} h hstep := by
    obtain ⟨hloop, hcases⟩ := done_of_inMainLoop h.inMainLoop hstep
    have hstarts := starts_done hstep
    rcases hcases with ⟨w, hphase, hreads, -, hserial⟩ | ⟨r, hphase, hreads, -, hserial⟩
    · refine Prompt.of_starts hloop (hreads ▸ h.reads) hstarts ?_
      rw [hserial]
      exact h.writing w [] hphase
    · refine Prompt.of_starts hloop ?_ hstarts ?_
      · intro r' hr'
        rw [hreads] at hr'
        rcases List.mem_append.mp hr' with hr' | hr'
        · exact h.reads r' hr'
        · obtain rfl := List.mem_singleton.mp hr'
          rfl
      · -- the buffer held the packet and nothing else
        rw [hserial]
        have hsize := h.reading r 0 hphase
        rw [Nat.zero_add] at hsize
        exact List.drop_eq_nil_of_le hsize.le
  timeout {s s' o} ho := ho.elim

/-! ## The bytes sent -/

/-- The bytes of the write under way that are left. -/
def left (s : Som D) : List UInt8 :=
  match s.phase with
  | .writing _ left => left
  | _ => []

/-- In the main loop, and what was sent and what is left of the write under way are the answers of
the iterations. -/
structure Replying (s : Som D) : Prop extends s.Looping where
  sent_left : s.sent ++ s.left =
    ControlSurfacePacket.codec.encodeAll (s.iterations.map Iteration.reply)

theorem replying_aligned [Double D] (debugMessage : DebugMessage) :
    Replying (aligned debugMessage : Som D) := ⟨looping_aligned debugMessage, rfl⟩

/-- A read of the main loop leaves the next answer to write, if it is the second one. -/
theorem sent_left_finishRead [Double D] {s : Som D} {r : SomRead} {need : ℕ}
    (hphase : s.phase = .reading r need) (hloop : s.InMainLoop)
    (hsent : s.sent ++ s.left =
      ControlSurfacePacket.codec.encodeAll (s.iterations.map Iteration.reply))
    (result : ReadResult r.type) :
    (finishRead c s r result).sent ++ (finishRead c s r result).left =
      ControlSurfacePacket.codec.encodeAll
        ((finishRead c s r result).iterations.map Iteration.reply) := by
  rw [left, hphase, List.append_nil] at hsent
  cases r with
  | handshake attempt =>
    rw [InMainLoop, hphase] at hloop
    exact hloop.elim
  | rcRx => exact (List.append_nil _).trans hsent
  | imu rcRx =>
    -- the answer is left to write as a whole
    show s.sent ++ _ = ControlSurfacePacket.codec.encodeAll ((s.iterations ++ [_]).map _)
    rw [List.map_append, List.map_singleton, ControlSurfacePacket.codec.encodeAll_snoc, hsent]
    rfl

/-- As long as no write times out, every step of the main loop sends what the iterations
answer. -/
theorem replying_invariant [Double D] (c : SomConfig D) :
    Invariant c (fun o => o ≠ .write) Replying where
  send {s s' b} h hstep := by
    refine ⟨(looping_invariant c).send h.toLooping hstep, ?_⟩
    obtain ⟨w, rest, hphase, rfl⟩ := send_eq_some.mp hstep
    have hsent := h.sent_left
    rw [left, hphase] at hsent
    show (s.sent ++ [b]) ++ rest = _
    rw [List.append_assoc, List.singleton_append]
    exact hsent
  receive {s s' piece} h hstep := by
    refine ⟨(looping_invariant c).receive h.toLooping hstep, ?_⟩
    have hsent := h.sent_left
    rcases receive_eq_some hstep with ⟨hphase, -, rfl⟩ | ⟨r, need, hphase, -, rfl⟩
    · exact hsent
    · rw [left, hphase] at hsent
      exact hsent
  done {s s'} h hstep := by
    have hlooping := (looping_invariant c).done h.toLooping hstep
    have hloop := h.inMainLoop
    have hsent := h.sent_left
    refine ⟨hlooping, ?_⟩
    rcases done_eq_some hstep with ⟨size, hphase, -, rfl⟩ | ⟨w, hphase, rfl⟩ |
      ⟨r, hphase, rfl⟩ | ⟨hphase, rfl⟩
    · rw [InMainLoop, hphase] at hloop
      exact hloop.elim
    · rw [InMainLoop, hphase] at hloop
      rw [left, hphase] at hsent
      cases w with
      | handshake => exact hloop.elim
      | controlSurface imuPacket => exact hsent
    · -- the answer to the packets that were read is all left to be written
      exact sent_left_finishRead (s := { s with
        serial := (s.serial.completeRead r.type).2
        consumed := s.consumed ++ s.serial.streamBuffer.take r.type.codec.size })
        hphase hloop hsent (s.serial.completeRead r.type).1
    · rw [InMainLoop, hphase] at hloop
      exact hloop.elim
  timeout {s s' o} ho h hstep := by
    have hlooping := (looping_invariant c).timeout trivial h.toLooping hstep
    have hloop := h.inMainLoop
    refine ⟨hlooping, ?_⟩
    rcases timeout_eq_some hstep with ⟨-, hphase, rfl⟩ | ⟨r, need, -, hphase, rfl⟩ |
      ⟨w, b, left, rfl, -, -⟩
    · rw [InMainLoop, hphase] at hloop
      exact hloop.elim
    · exact sent_left_finishRead hphase hloop h.sent_left {}
    · -- a write that times out would leave the rest of its packet unsent
      exact absurd rfl ho

end Som

end RcPlane
