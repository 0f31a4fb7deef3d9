import RcPlane.Foundation.Network
import RcPlane.Serial.SerialController
import Mathlib.Logic.Function.Basic

/-!
# The caller and the io thread

`readPacket` and `writePacket` start an operation that the io thread carries out, and wait for its
completion handler to fulfil a promise. A call that has waited long enough cancels the operation
and returns; but the decision, the cancellation and the return are steps of one thread, and the
io thread may take any of its own between them, also after the call has returned.

## Main definitions

* `SerialCall`, `SerialAnswer`: a call, and what it returns
* `Operation`, `CallRecord`: an outstanding operation, and what is recorded of a call
* `SerialThreads`, `SerialThreads.step`: the two threads, and their steps in any order
* `Advance`, `SerialThreads.Advances`: what a step of the io thread can do

## Main results

* `SerialThreads.advances_of_move`, `SerialThreads.advances_of_resume`,
  `SerialThreads.advances_of_fail`, `SerialThreads.advances_of_handle`: every step of the io thread
  advances the record of one call, and may fulfil its promise
-/

namespace RcPlane

open Foundation Function

/-! ## Calls and operations -/

/-- A call of `readPacket` or of `writePacket`. -/
inductive SerialCall
  | read (t : PacketType)
  | write (t : PacketType) (packet : t.Packet)

/-- What a call returns. -/
inductive SerialAnswer
  | read (t : PacketType) (result : ReadResult t)
  | write (written : Bool)

namespace SerialCall

/-- The number of bytes that the operation transfers. -/
def size : SerialCall → ℕ
  | read t => t.codec.size
  | write t _ => t.codec.size

/-- What a call returns that has timed out. -/
def timeoutAnswer : SerialCall → SerialAnswer
  | read t => .read t {}
  | write _ _ => .write false

end SerialCall

/-- Where an operation stands: a transfer is waited for, or has moved its bytes and is about to be
followed by another one or by the completion handler, or the operation has failed and the handler
is about to run with an error. -/
inductive Progress
  | transferring
  | moved
  | failed
deriving DecidableEq, Repr

/-- An operation whose completion handler has not run. -/
structure Operation where
  call : SerialCall
  /-- The bytes that are still to be transferred. -/
  need : ℕ
  progress : Progress

/-- Cancellation reaches the transfer that is waited for. -/
def Operation.cancel (op : Operation) : Operation :=
  if op.progress = .transferring then { op with progress := .failed } else op

/-- What is recorded of a call. -/
structure CallRecord where
  /-- The call's operation, until its handler has run. -/
  operation : Option Operation := none
  /-- History: the packet that the handler took off the buffer. -/
  removed : Option ((t : PacketType) × t.Packet) := none
  /-- History: the whole packet has been handed to the port. -/
  handedOver : Bool := false
  /-- History: what the call returned. -/
  answer : Option SerialAnswer := none

/-- Cancellation of a call's operation, if it is outstanding and the cancellation does not throw. -/
def CallRecord.cancel (thrown : Bool) (r : CallRecord) : CallRecord :=
  if thrown then r else { r with operation := r.operation.map Operation.cancel }

/-- The program counter of the caller: no call is under way, or one that waits, that has decided
that it timed out, or that has cancelled its operation. -/
inductive CallerPhase
  | idle
  | waiting (call : SerialCall)
  | timedOut (call : SerialCall)
  | cancelled (call : SerialCall)

/-- The two threads: the controller's memory, the caller, and the operations of all calls, which
are numbered in order. -/
structure SerialThreads where
  serial : SerialController := {}
  /-- History: every byte handed to the port. -/
  sent : List UInt8 := []
  phase : CallerPhase := .idle
  /-- The value of the promise of the call under way. -/
  promise : Option SerialAnswer := none
  /-- The number of calls that have returned, which is the number of the call under way. -/
  calls : ℕ := 0
  record : ℕ → CallRecord := fun _ => {}

namespace SerialThreads

/-! ## The caller -/

/-- A call begins, and starts its operation. -/
def start (s : SerialThreads) (call : SerialCall) : Option SerialThreads :=
  match s.phase with
  | .idle =>
    some { s with
      phase := .waiting call
      promise := none
      record := update s.record s.calls
        { s.record s.calls with operation := some ⟨call, call.size, .transferring⟩ } }
  | _ => none

/-- The call under way returns. -/
def finish (s : SerialThreads) (answer : SerialAnswer) : SerialThreads :=
  { s with
    phase := .idle
    calls := s.calls + 1
    record := update s.record s.calls { s.record s.calls with answer := some answer } }

/-- The wait ends because the promise is fulfilled, and the call returns its value. -/
def ready (s : SerialThreads) : Option SerialThreads :=
  match s.phase, s.promise with
  | .waiting _, some answer => some (s.finish answer)
  | _, _ => none

/-- The wait ends with the promise not fulfilled. -/
def timeout (s : SerialThreads) : Option SerialThreads :=
  match s.phase, s.promise with
  | .waiting call, none => some { s with phase := .timedOut call }
  | _, _ => none

/-- The port is cancelled, with all that is outstanding on it. Where the device is gone that throws
instead, which the call ignores. -/
def cancel (s : SerialThreads) (thrown : Bool) : Option SerialThreads :=
  match s.phase with
  | .timedOut call =>
    some { s with
      phase := .cancelled call
      record := fun k => (s.record k).cancel thrown }
  | _ => none

/-- A call that has timed out returns. -/
def giveUp (s : SerialThreads) : Option SerialThreads :=
  match s.phase with
  | .cancelled call => some (s.finish call.timeoutAnswer)
  | _ => none

/-! ## The io thread -/

/-- The record of a call is replaced. -/
def withRecord (s : SerialThreads) (k : ℕ) (r : CallRecord) : SerialThreads :=
  { s with record := update s.record k r }

/-- The promise of a call is fulfilled. That of a call that has returned is gone. -/
def fulfil (s : SerialThreads) (k : ℕ) (answer : SerialAnswer) : SerialThreads :=
  if k = s.calls then { s with promise := some answer } else s

section Fields

variable (s : SerialThreads) (k : ℕ) (r : CallRecord) (answer : SerialAnswer)

@[simp] theorem serial_withRecord : (s.withRecord k r).serial = s.serial := rfl

@[simp] theorem sent_withRecord : (s.withRecord k r).sent = s.sent := rfl

@[simp] theorem record_withRecord : (s.withRecord k r).record = update s.record k r := rfl

@[simp] theorem phase_withRecord : (s.withRecord k r).phase = s.phase := rfl

@[simp] theorem promise_withRecord : (s.withRecord k r).promise = s.promise := rfl

@[simp] theorem calls_withRecord : (s.withRecord k r).calls = s.calls := rfl

@[simp] theorem serial_fulfil : (s.fulfil k answer).serial = s.serial := by
  unfold fulfil; split_ifs <;> rfl

@[simp] theorem sent_fulfil : (s.fulfil k answer).sent = s.sent := by
  unfold fulfil; split_ifs <;> rfl

@[simp] theorem record_fulfil : (s.fulfil k answer).record = s.record := by
  unfold fulfil; split_ifs <;> rfl

@[simp] theorem phase_fulfil : (s.fulfil k answer).phase = s.phase := by
  unfold fulfil; split_ifs <;> rfl

@[simp] theorem calls_fulfil : (s.fulfil k answer).calls = s.calls := by
  unfold fulfil; split_ifs <;> rfl

@[simp] theorem promise_fulfil :
    (s.fulfil k answer).promise = if k = s.calls then some answer else s.promise := by
  unfold fulfil; split_ifs <;> rfl

end Fields

/-- A transfer moves bytes: any bytes that have arrived, or the next ones of the packet. -/
def move (s : SerialThreads) (k : ℕ) (piece : List UInt8) : Option SerialThreads :=
  match (s.record k).operation with
  | some ⟨.read t, need, .transferring⟩ =>
    if piece.length ≤ need then
      some ({ s with serial := s.serial.append piece }.withRecord k
        { s.record k with operation := some ⟨.read t, need - piece.length, .moved⟩ })
    else none
  | some ⟨.write t packet, need, .transferring⟩ =>
    if piece <+: (t.codec.encode packet).drop (t.codec.size - need) then
      some ({ s with sent := s.sent ++ piece }.withRecord k
        { s.record k with
          operation := some ⟨.write t packet, need - piece.length, .moved⟩
          handedOver := need - piece.length = 0 })
    else none
  | _ => none

/-- The next transfer of an operation that is not complete begins. -/
def resume (s : SerialThreads) (k : ℕ) : Option SerialThreads :=
  match (s.record k).operation with
  | some ⟨call, need + 1, .moved⟩ =>
    some (s.withRecord k
      { s.record k with operation := some ⟨call, need + 1, .transferring⟩ })
  | _ => none

/-- A transfer fails. -/
def fail (s : SerialThreads) (k : ℕ) : Option SerialThreads :=
  match (s.record k).operation with
  | some ⟨call, need, .transferring⟩ =>
    some (s.withRecord k { s.record k with operation := some ⟨call, need, .failed⟩ })
  | _ => none

/-- The completion handler of an operation runs. With an error it does nothing. -/
def handle (s : SerialThreads) (k : ℕ) : Option SerialThreads :=
  match (s.record k).operation with
  | some ⟨_, _, .failed⟩ => some (s.withRecord k { s.record k with operation := none })
  | some ⟨.read t, 0, .moved⟩ =>
    some (({ s with serial := (s.serial.completeRead t).2 }.withRecord k
      { s.record k with
        operation := none
        removed := some ⟨t, (s.serial.completeRead t).1.packet⟩ }).fulfil k
      (.read t (s.serial.completeRead t).1))
  | some ⟨.write _ _, 0, .moved⟩ =>
    some ((s.withRecord k { s.record k with operation := none }).fulfil k (.write true))
  | _ => none

end SerialThreads

/-- A step of one of the threads; those of the io thread are about the operation of a call. -/
inductive ThreadAction
  | start (call : SerialCall)
  | ready
  | timeout
  | cancel (thrown : Bool)
  | giveUp
  | move (k : ℕ) (piece : List UInt8)
  | resume (k : ℕ)
  | fail (k : ℕ)
  | handle (k : ℕ)

namespace SerialThreads

/-- The effect of a step, if it can be taken. -/
def step (s : SerialThreads) : ThreadAction → Option SerialThreads
  | .start call => s.start call
  | .ready => s.ready
  | .timeout => s.timeout
  | .cancel thrown => s.cancel thrown
  | .giveUp => s.giveUp
  | .move k piece => s.move k piece
  | .resume k => s.resume k
  | .fail k => s.fail k
  | .handle k => s.handle k

end SerialThreads

/-! ## What a step of the io thread can do -/

/-- What a step of the io thread makes of the record of a call, and the answer with which it
fulfils the promise, if it does. -/
inductive Advance (r : CallRecord) : Option SerialAnswer → CallRecord → Prop
  | received {call : SerialCall} {need : ℕ} (need' : ℕ)
      (operation : r.operation = some ⟨call, need, .transferring⟩) :
      Advance r none { r with operation := some ⟨call, need', .moved⟩ }
  | sent {call : SerialCall} {need : ℕ} (need' : ℕ)
      (operation : r.operation = some ⟨call, need, .transferring⟩) :
      Advance r none
        { r with operation := some ⟨call, need', .moved⟩, handedOver := need' = 0 }
  | resumed {call : SerialCall} {need : ℕ}
      (operation : r.operation = some ⟨call, need + 1, .moved⟩) :
      Advance r none { r with operation := some ⟨call, need + 1, .transferring⟩ }
  | failed {call : SerialCall} {need : ℕ}
      (operation : r.operation = some ⟨call, need, .transferring⟩) :
      Advance r none { r with operation := some ⟨call, need, .failed⟩ }
  | dropped {call : SerialCall} {need : ℕ} (operation : r.operation = some ⟨call, need, .failed⟩) :
      Advance r none { r with operation := none }
  | read {t : PacketType} (packet : t.Packet)
      (operation : r.operation = some ⟨.read t, 0, .moved⟩) :
      Advance r (some (.read t { packet := packet, didTimeout := false }))
        { r with operation := none, removed := some ⟨t, packet⟩ }
  | written {t : PacketType} {packet : t.Packet}
      (operation : r.operation = some ⟨.write t packet, 0, .moved⟩) :
      Advance r (some (.write true)) { r with operation := none }

theorem Advance.operation_ne_none {r r' : CallRecord} {answer : Option SerialAnswer}
    (h : Advance r answer r') : r.operation ≠ none := by
  cases h <;> simp [*]

namespace SerialThreads

/-- The record of the call `k` advances, and its promise may be fulfilled; all else that concerns
calls stays. -/
structure Advances (s : SerialThreads) (k : ℕ) (answer : Option SerialAnswer) (r : CallRecord)
    (s' : SerialThreads) : Prop where
  advance : Advance (s.record k) answer r
  record : s'.record = update s.record k r
  phase : s'.phase = s.phase
  calls : s'.calls = s.calls
  promise : s'.promise = if k = s.calls then answer.or s.promise else s.promise

variable {s s' : SerialThreads} {k : ℕ}

theorem advances_withRecord {r : CallRecord} (h : Advance (s.record k) none r) :
    Advances s k none r (s.withRecord k r) :=
  ⟨h, rfl, rfl, rfl, by simp⟩

theorem advances_of_move {piece : List UInt8} (h : s.move k piece = some s') :
    ∃ r, Advances s k none r s' := by
  unfold move at h
  split at h
  · next t need hoperation =>
    split_ifs at h
    obtain rfl := Option.some.inj h
    exact ⟨_, .received _ hoperation, rfl, rfl, rfl, by simp⟩
  · next t packet need hoperation =>
    split_ifs at h
    obtain rfl := Option.some.inj h
    exact ⟨_, .sent _ hoperation, rfl, rfl, rfl, by simp⟩
  · cases h

theorem advances_of_resume (h : s.resume k = some s') : ∃ r, Advances s k none r s' := by
  unfold resume at h
  split at h
  · next call need hoperation =>
    obtain rfl := Option.some.inj h
    exact ⟨_, advances_withRecord (.resumed hoperation)⟩
  · cases h

theorem advances_of_fail (h : s.fail k = some s') : ∃ r, Advances s k none r s' := by
  unfold fail at h
  split at h
  · next call need hoperation =>
    obtain rfl := Option.some.inj h
    exact ⟨_, advances_withRecord (.failed hoperation)⟩
  · cases h

theorem advances_of_handle (h : s.handle k = some s') : ∃ answer r, Advances s k answer r s' := by
  unfold handle at h
  split at h
  · next call need hoperation =>
    obtain rfl := Option.some.inj h
    exact ⟨_, _, advances_withRecord (.dropped hoperation)⟩
  · next t hoperation =>
    obtain rfl := Option.some.inj h
    exact ⟨_, _, .read (s.serial.completeRead t).1.packet hoperation, record_fulfil ..,
      phase_fulfil .., calls_fulfil .., promise_fulfil ..⟩
  · next t packet hoperation =>
    obtain rfl := Option.some.inj h
    exact ⟨_, _, .written hoperation, record_fulfil .., phase_fulfil .., calls_fulfil ..,
      promise_fulfil ..⟩
  · cases h

end SerialThreads

end RcPlane
