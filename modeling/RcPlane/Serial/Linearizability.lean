import RcPlane.Foundation.Automaton
import RcPlane.Serial.Truthfulness

/-!
# Calls as single steps

A caller that is idle cannot tell the two threads from the sequential model: however the steps of
the threads were interleaved, the answers so far, the buffer and the bytes handed to the port are
those of the same calls made one after the other, each with the bytes that its operation
transferred. The cancellations have to interrupt their operations; one that comes too late takes
bytes out of the buffer that no call returns.

## Main definitions

* `SerialCall.perform`: a call of the sequential model, with the bytes that it transfers
* `SerialCall.sequential`: calls one after the other
* `Transfers`, `SerialThreads.noteTransfers`: the calls of a run, each with the bytes that its
  operation has transferred, and the bytes that the reads have received
* `SerialThreads.Linear`: the two threads stand where some sequence of calls leads

## Main results

* `SerialThreads.linear_step`: every step keeps it
* `SerialThreads.sequential_of_run`: every run, where the caller is idle
-/

namespace RcPlane

open Foundation Function

/-! ## Calls of the sequential model -/

namespace SerialCall

/-- The controller's memory, and the bytes handed to the port. -/
abbrev Port := SerialController × List UInt8

/-- The bytes that the operation of a call can transfer. -/
def Admits : SerialCall → List UInt8 → Prop
  | read t, bytes => bytes.length ≤ t.codec.size
  | write t packet, bytes => bytes <+: t.codec.encode packet

/-- The effect of a call on the controller and the port, and what it returns, given the bytes that
it transfers. -/
def perform : SerialCall → List UInt8 → Port → Port × SerialAnswer
  | read t, bytes, p =>
    (((p.1.readPacket t [bytes.length] bytes).2.1, p.2),
      .read t (p.1.readPacket t [bytes.length] bytes).1)
  | write t packet, bytes, p => ((p.1, p.2 ++ bytes), .write (bytes = t.codec.encode packet))

/-- Calls one after the other, each with the bytes that it transfers. -/
def sequential : Automaton Port (SerialCall × List UInt8) SerialAnswer where
  start := ({}, [])
  step p q := q.1.perform q.2 p

/-- The bytes that a call receives. -/
def received : SerialCall → List UInt8 → List UInt8
  | read _, bytes => bytes
  | write _ _, _ => []

/-- The transfer of bytes by itself, without the completion handler. -/
def transferred : SerialCall → List UInt8 → Port → Port
  | read _, bytes, p => (p.1.append bytes, p.2)
  | write _ _, bytes, p => (p.1, p.2 ++ bytes)

theorem size_pos (call : SerialCall) : 0 < call.size := by
  have hpos : ∀ t : PacketType, 0 < t.codec.size := by
    intro t
    cases t <;> decide
  cases call with
  | read t => exact hpos t
  | write t packet => exact hpos t

theorem length_le_of_admits {call : SerialCall} {bytes : List UInt8} (h : call.Admits bytes) :
    bytes.length ≤ call.size := by
  cases call with
  | read t => exact h
  | write t packet => exact (List.IsPrefix.length_le h).trans (t.codec.length_encode packet).le

/-- A call that transfers less than its packet times out, and leaves the bytes where they are. -/
theorem perform_of_short {call : SerialCall} {bytes : List UInt8} (h : bytes.length < call.size)
    (p : Port) : call.perform bytes p = (call.transferred bytes p, call.timeoutAnswer) := by
  cases call with
  | read t =>
    obtain ⟨need, hneed⟩ := Nat.exists_eq_add_of_lt h
    have hsize : t.codec.size = bytes.length + need + 1 := hneed
    have hmin : min [bytes.length].sum (min t.codec.size bytes.length) = bytes.length := by
      rw [List.sum_singleton]
      omega
    have hread : p.1.readPacket t [bytes.length] bytes =
        ({}, p.1.append bytes, bytes.drop bytes.length) := by
      rw [SerialController.readPacket, SerialController.transfer_eq, hmin, hsize,
        show bytes.length + need + 1 - bytes.length = need + 1 by omega, List.take_length]
    rw [perform, hread]
    rfl
  | write t packet =>
    have hne : bytes ≠ t.codec.encode packet := by
      rintro rfl
      exact absurd h (t.codec.length_encode packet).ge.not_gt
    simp only [perform, hne, decide_false]
    rfl

theorem perform_read_of_whole {t : PacketType} {bytes : List UInt8}
    (h : bytes.length = t.codec.size) (p : Port) :
    (read t).perform bytes p = ((((p.1.append bytes).completeRead t).2, p.2),
      .read t ((p.1.append bytes).completeRead t).1) := by
  have hmin : min [bytes.length].sum (min t.codec.size bytes.length) = bytes.length := by
    rw [List.sum_singleton]
    omega
  have hread : p.1.readPacket t [bytes.length] bytes =
      (((p.1.append bytes).completeRead t).1, ((p.1.append bytes).completeRead t).2,
        bytes.drop bytes.length) := by
    rw [SerialController.readPacket, SerialController.transfer_eq, hmin, h, Nat.sub_self, ← h,
      List.take_length]
  rw [perform, hread]

theorem perform_write_of_whole {t : PacketType} {packet : t.Packet} {bytes : List UInt8}
    (h : (write t packet).Admits bytes) (hlength : bytes.length = t.codec.size) (p : Port) :
    (write t packet).perform bytes p = ((p.1, p.2 ++ bytes), .write true) := by
  have hbytes : bytes = t.codec.encode packet :=
    List.IsPrefix.eq_of_length h (hlength.trans (t.codec.length_encode packet).symm)
  simp only [perform, hbytes, decide_true]

end SerialCall

/-- The call whose operation a step of the io thread is about. -/
def ThreadAction.about : ThreadAction → Option ℕ
  | .move k _ => some k
  | .resume k => some k
  | .fail k => some k
  | .handle k => some k
  | _ => none

/-- The call that a step starts. -/
def ThreadAction.started : ThreadAction → Option SerialCall
  | .start call => some call
  | _ => none

/-- The bytes of the packet that an answer returns. -/
def SerialAnswer.bytes : SerialAnswer → List UInt8
  | read _ result => result.bytes
  | write _ => []

/-- A call returns what it receives and what was in the buffer, or leaves it there. -/
theorem SerialCall.received_perform {call : SerialCall} {bytes : List UInt8}
    (h : call.Admits bytes) (p : Port) :
    (call.perform bytes p).2.bytes ++ (call.perform bytes p).1.1.streamBuffer =
      p.1.streamBuffer ++ call.received bytes := by
  rcases (length_le_of_admits h).lt_or_eq with hshort | hwhole
  · rw [perform_of_short hshort]
    cases call with
    | read t => rfl
    | write t packet => exact (List.append_nil _).symm
  · cases call with
    | read t =>
      rw [perform_read_of_whole hwhole]
      refine SerialController.completeRead_conserves ?_
      have hwhole : bytes.length = t.codec.size := hwhole
      rw [SerialController.streamBuffer_append, List.length_append]
      omega
    | write t packet =>
      rw [perform_write_of_whole h hwhole]
      exact (List.append_nil _).symm

/-- Calls one after the other lose no byte and duplicate none: what they receive is what they
return, and what is left in the buffer. -/
theorem SerialCall.received_sequential {history : List (SerialCall × List UInt8)}
    (h : ∀ q ∈ history, q.1.Admits q.2) :
    (sequential.outputs history).flatMap SerialAnswer.bytes ++
        (sequential.after history).1.streamBuffer =
      history.flatMap fun q => q.1.received q.2 := by
  induction history using List.reverseRecOn with
  | nil => rfl
  | append_singleton history q ih =>
    have hbefore := ih fun q' hq' => h q' (List.mem_append_left _ hq')
    have hlast := received_perform (h q (by simp)) (sequential.after history)
    rw [Automaton.outputs_snoc, Automaton.after_snoc, List.flatMap_append,
      List.flatMap_singleton, List.flatMap_append, List.flatMap_singleton, ← hbefore,
      List.append_assoc, List.append_assoc]
    exact congrArg (_ ++ ·) hlast

/-! ## Where the two threads stand -/

namespace SerialThreads

/-- What has been transferred for the calls of a run: the calls in the order in which they were
started, each with the bytes that its operation has transferred; and the bytes received, in the
order in which they arrived. -/
structure Transfers where
  calls : List (SerialCall × List UInt8) := []
  received : List UInt8 := []

/-- A call that starts is noted, and the bytes that a transfer moves are noted with their call. -/
def noteTransfers (transfers : Transfers) (s : SerialThreads) :
    ThreadAction → SerialThreads → Transfers
  | .start call, _ => { transfers with calls := transfers.calls ++ [(call, [])] }
  | .move k piece, _ =>
    { calls := transfers.calls.modify k fun q => (q.1, q.2 ++ piece)
      received :=
        match (s.record k).operation with
        | some ⟨.read _, _, _⟩ => transfers.received ++ piece
        | _ => transfers.received }
  | _, _ => transfers

/-- What is noted of calls one after the other. -/
def Transfers.ofCalls (calls : List (SerialCall × List UInt8)) : Transfers :=
  ⟨calls, calls.flatMap fun q => q.1.received q.2⟩

theorem Transfers.ofCalls_snoc (done : List (SerialCall × List UInt8)) (call : SerialCall)
    (bytes : List UInt8) : ofCalls (done ++ [(call, bytes)]) =
      ⟨done ++ [(call, bytes)], (ofCalls done).received ++ call.received bytes⟩ := by
  simp [ofCalls]

theorem noteTransfers_start (done : List (SerialCall × List UInt8)) (call : SerialCall)
    (s s' : SerialThreads) :
    noteTransfers (.ofCalls done) s (.start call) s' = .ofCalls (done ++ [(call, [])]) := by
  rw [Transfers.ofCalls_snoc, noteTransfers]
  cases call with
  | read t => exact congrArg (Transfers.mk _) (List.append_nil _).symm
  | write t packet => exact congrArg (Transfers.mk _) (List.append_nil _).symm

/-- What the operation of the call under way moves is noted with it. -/
theorem noteTransfers_move {done : List (SerialCall × List UInt8)} {s : SerialThreads}
    (hlength : done.length = s.calls) {call : SerialCall} {need : ℕ} {progress : Progress}
    (hoperation : (s.record s.calls).operation = some ⟨call, need, progress⟩)
    (bytes piece : List UInt8) (s' : SerialThreads) :
    noteTransfers (.ofCalls (done ++ [(call, bytes)])) s (.move s.calls piece) s' =
      .ofCalls (done ++ [(call, bytes ++ piece)]) := by
  have hcalls : ((done ++ [(call, bytes)]).modify s.calls fun q => (q.1, q.2 ++ piece)) =
      done ++ [(call, bytes ++ piece)] := by
    rw [← hlength, List.modify_eq_take_cons_drop (by simp)]
    simp
  rw [noteTransfers, Transfers.ofCalls_snoc, Transfers.ofCalls_snoc, hoperation]
  dsimp only
  rw [hcalls]
  cases call with
  | read t =>
    exact congrArg (Transfers.mk _) (List.append_assoc _ bytes piece)
  | write t packet => rfl

/-- The operation of a call that has transferred the given bytes, if it is outstanding. It has not
transferred the whole packet unless its handler is about to run. -/
structure Outstanding (operation : Option Operation) (call : SerialCall) (bytes : List UInt8) :
    Prop where
  shape : ∀ op ∈ operation, op.call = call ∧ op.need + bytes.length = call.size
  short : (∀ op ∈ operation, op.progress ≠ .moved) → bytes.length < call.size

/-- Where the call under way stands, after the calls `done` that have led to `base`: none is under
way; its operation has transferred some bytes; its handler has run; or it has been cancelled. -/
inductive Stands (base : SerialCall.Port) (done : List (SerialCall × List UInt8))
    (p : SerialThreads × Transfers) : Prop
  | idle (phase : p.1.phase = .idle) (state : (p.1.serial, p.1.sent) = base)
      (noted : p.2 = .ofCalls done)
  | ongoing (call : SerialCall) (bytes : List UInt8)
      (phase : p.1.phase = .waiting call ∨ p.1.phase = .timedOut call)
      (promise : p.1.promise = none) (admits : call.Admits bytes)
      (outstanding : Outstanding (p.1.record p.1.calls).operation call bytes)
      (state : (p.1.serial, p.1.sent) = call.transferred bytes base)
      (noted : p.2 = .ofCalls (done ++ [(call, bytes)]))
  | fulfilled (call : SerialCall) (bytes : List UInt8) (answer : SerialAnswer)
      (phase : p.1.phase = .waiting call ∨ p.1.phase = .timedOut call)
      (promise : p.1.promise = some answer) (admits : call.Admits bytes)
      (operation : (p.1.record p.1.calls).operation = none)
      (state : ((p.1.serial, p.1.sent), answer) = call.perform bytes base)
      (noted : p.2 = .ofCalls (done ++ [(call, bytes)]))
  | cancelled (call : SerialCall) (bytes : List UInt8) (phase : p.1.phase = .cancelled call)
      (admits : call.Admits bytes) (short : bytes.length < call.size)
      (state : (p.1.serial, p.1.sent) = call.transferred bytes base)
      (noted : p.2 = .ofCalls (done ++ [(call, bytes)]))

/-- The calls that have returned are calls one after the other, with the same answers, and the
threads stand where they lead. -/
structure Linear (p : SerialThreads × Transfers) : Prop where
  orderly : p.1.Orderly
  stands : ∃ history : List (SerialCall × List UInt8), (∀ q ∈ history, q.1.Admits q.2) ∧
    (List.range p.1.calls).map (fun k => (p.1.record k).answer) =
      (SerialCall.sequential.outputs history).map some ∧
    Stands (SerialCall.sequential.after history) history p

theorem linear_init : Linear ({}, {}) where
  orderly := orderly_init
  stands := by
    refine ⟨[], fun q hq => ?_, rfl, .idle rfl rfl rfl⟩
    cases hq

/-! ### Steps of the io thread -/

variable {s s' : SerialThreads} {a : ThreadAction} {k : ℕ} {base : SerialCall.Port}
  {done : List (SerialCall × List UInt8)} {transfers : Transfers}

/-- Of a settled operation nothing is left but that its handler runs with an error. -/
theorem step_of_settled (transfers : Transfers) (ha : a.about = some k) (h : (s.record k).Settled)
    (hs : s.step a = some s') :
    s' = s.withRecord k { s.record k with operation := none } ∧
      noteTransfers transfers s a s' = transfers := by
  cases a with
  | move j piece =>
    obtain rfl := Option.some.inj ha
    have hs : s.move j piece = some s' := hs
    unfold move at hs
    split at hs
    · next hoperation => cases h _ hoperation
    · next hoperation => cases h _ hoperation
    · cases hs
  | resume j =>
    obtain rfl := Option.some.inj ha
    have hs : s.resume j = some s' := hs
    unfold resume at hs
    split at hs
    · next hoperation => cases h _ hoperation
    · cases hs
  | fail j =>
    obtain rfl := Option.some.inj ha
    have hs : s.fail j = some s' := hs
    unfold fail at hs
    split at hs
    · next hoperation => cases h _ hoperation
    · cases hs
  | handle j =>
    obtain rfl := Option.some.inj ha
    have hs : s.handle j = some s' := hs
    unfold handle at hs
    split at hs
    · exact ⟨(Option.some.inj hs).symm, rfl⟩
    · next hoperation => cases h _ hoperation
    · next hoperation => cases h _ hoperation
    · cases hs
  | start call => cases ha
  | ready => cases ha
  | timeout => cases ha
  | cancel thrown => cases ha
  | giveUp => cases ha

/-- A settled operation of another call does not concern the call under way. -/
theorem Stands.of_other (h : Stands base done (s, transfers)) (hne : k ≠ s.calls)
    (r : CallRecord) : Stands base done (s.withRecord k r, transfers) := by
  have hrecord : update s.record k r s.calls = s.record s.calls := update_of_ne hne.symm _ _
  cases h with
  | idle phase state noted => exact .idle phase state noted
  | ongoing call bytes phase promise admits outstanding state noted =>
    refine .ongoing call bytes phase promise admits ?_ state noted
    show Outstanding (update s.record k r s.calls).operation call bytes
    rw [hrecord]
    exact outstanding
  | fulfilled call bytes answer phase promise admits operation state noted =>
    refine .fulfilled call bytes answer phase promise admits ?_ state noted
    show (update s.record k r s.calls).operation = none
    rw [hrecord]
    exact operation
  | cancelled call bytes phase admits short state noted =>
    exact .cancelled call bytes phase admits short state noted

/-- The call under way goes on with its operation as it is recorded now. -/
theorem stands_withRecord (call : SerialCall) (bytes : List UInt8) {r : CallRecord}
    (phase : s.phase = .waiting call ∨ s.phase = .timedOut call) (promise : s.promise = none)
    (admits : call.Admits bytes) (outstanding : Outstanding r.operation call bytes)
    (state : (s.serial, s.sent) = call.transferred bytes base)
    (hnoted : transfers = .ofCalls (done ++ [(call, bytes)])) :
    Stands base done (s.withRecord s.calls r, transfers) := by
  refine .ongoing call bytes phase promise admits ?_ state hnoted
  show Outstanding (update s.record s.calls r s.calls).operation call bytes
  rw [update_self]
  exact outstanding

theorem outstanding_moved {call : SerialCall} {bytes : List UInt8} {need : ℕ}
    (h : need + bytes.length = call.size) :
    Outstanding (some ⟨call, need, .moved⟩) call bytes where
  shape op hop := by
    obtain rfl := Option.some.inj hop
    exact ⟨rfl, h⟩
  short hmoved := absurd rfl (hmoved _ rfl)

theorem outstanding_of_short {operation : Option Operation} {call : SerialCall}
    {bytes : List UInt8} (shape : ∀ op ∈ operation, op.call = call ∧
      op.need + bytes.length = call.size) (short : bytes.length < call.size) :
    Outstanding operation call bytes :=
  ⟨shape, fun _ => short⟩

/-- A transfer of the call under way. -/
theorem Stands.move {call : SerialCall} {bytes piece : List UInt8} (hlength : done.length = s.calls)
    (phase : s.phase = .waiting call ∨ s.phase = .timedOut call) (promise : s.promise = none)
    (admits : call.Admits bytes)
    (outstanding : Outstanding (s.record s.calls).operation call bytes)
    (state : (s.serial, s.sent) = call.transferred bytes base)
    (hnoted : transfers = .ofCalls (done ++ [(call, bytes)]))
    (hs : s.move s.calls piece = some s') :
    Stands base done (s', noteTransfers transfers s (.move s.calls piece) s') := by
  obtain ⟨hserial, hsent⟩ := Prod.mk.inj state
  unfold SerialThreads.move at hs
  split at hs
  · next t need hoperation =>
    split_ifs at hs with hlen
    obtain rfl := Option.some.inj hs
    obtain ⟨rfl, hneed⟩ := outstanding.shape _ hoperation
    have hneed : need + bytes.length = t.codec.size := hneed
    have hrest : need - piece.length + (bytes ++ piece).length = t.codec.size := by
      rw [List.length_append]
      omega
    rw [hnoted, noteTransfers_move hlength hoperation]
    refine stands_withRecord (.read t) (bytes ++ piece) phase promise ?_
      (outstanding_moved hrest) ?_ rfl
    · show (bytes ++ piece).length ≤ t.codec.size
      omega
    · simp only [hserial, hsent, SerialCall.transferred, SerialController.append,
        List.append_assoc]
  · next t packet need hoperation =>
    split_ifs at hs with hprefix
    obtain rfl := Option.some.inj hs
    obtain ⟨rfl, hneed⟩ := outstanding.shape _ hoperation
    have hneed : need + bytes.length = t.codec.size := hneed
    obtain ⟨rest, hpacket⟩ := admits
    obtain ⟨later, hlater⟩ := hprefix
    -- what has been handed over ends where the piece begins
    have hsplit : t.codec.encode packet = bytes ++ piece ++ later := by
      have hdrop : (t.codec.encode packet).drop (t.codec.size - need) = rest := by
        rw [← hpacket, show t.codec.size - need = bytes.length by omega, List.drop_left]
      rw [← hpacket, List.append_assoc, hlater, hdrop]
    have hlen : (bytes ++ piece ++ later).length = t.codec.size := by
      rw [← hsplit, t.codec.length_encode]
    have hrest : need - piece.length + (bytes ++ piece).length = t.codec.size := by
      simp only [List.length_append] at hlen ⊢
      omega
    rw [hnoted, noteTransfers_move hlength hoperation]
    refine stands_withRecord (.write t packet) (bytes ++ piece) phase promise
      ⟨later, hsplit.symm⟩ (outstanding_moved hrest) ?_ rfl
    simp only [hserial, hsent, SerialCall.transferred, List.append_assoc]
  · cases hs

/-- The handler of the call under way. -/
theorem Stands.handle {call : SerialCall} {bytes : List UInt8}
    (phase : s.phase = .waiting call ∨ s.phase = .timedOut call) (promise : s.promise = none)
    (admits : call.Admits bytes)
    (outstanding : Outstanding (s.record s.calls).operation call bytes)
    (state : (s.serial, s.sent) = call.transferred bytes base)
    (hnoted : transfers = .ofCalls (done ++ [(call, bytes)]))
    (hs : s.handle s.calls = some s') : Stands base done (s', transfers) := by
  obtain ⟨hserial, hsent⟩ := Prod.mk.inj state
  unfold SerialThreads.handle at hs
  split at hs
  · next call' need hoperation =>
    -- with an error it does nothing
    obtain rfl := Option.some.inj hs
    have hshort : bytes.length < call.size := by
      apply outstanding.short
      intro op hop
      rw [hoperation] at hop
      obtain rfl := Option.some.inj hop
      exact Progress.noConfusion
    exact stands_withRecord call bytes phase promise admits
      (outstanding_of_short (fun op hop => by cases hop) hshort) state hnoted
  · next t hoperation =>
    obtain rfl := Option.some.inj hs
    obtain ⟨rfl, hneed⟩ := outstanding.shape _ hoperation
    have hwhole : bytes.length = t.codec.size := (Nat.zero_add _).symm.trans hneed
    refine .fulfilled (.read t) bytes (.read t (s.serial.completeRead t).1) ?_ ?_ admits ?_ ?_
      hnoted
    · simpa using phase
    · simp
    · simp
    · rw [SerialCall.perform_read_of_whole hwhole]
      simp only [serial_fulfil, sent_fulfil, serial_withRecord, sent_withRecord, hserial, hsent]
  · next t packet hoperation =>
    obtain rfl := Option.some.inj hs
    obtain ⟨rfl, hneed⟩ := outstanding.shape _ hoperation
    have hwhole : bytes.length = t.codec.size := (Nat.zero_add _).symm.trans hneed
    refine .fulfilled (.write t packet) bytes (.write true) ?_ ?_ admits ?_ ?_ hnoted
    · simpa using phase
    · simp
    · simp
    · rw [SerialCall.perform_write_of_whole admits hwhole]
      simp only [serial_fulfil, sent_fulfil, serial_withRecord, sent_withRecord, hserial, hsent]
  · cases hs

/-- The next transfer of the call under way begins. -/
theorem Stands.resume {call : SerialCall} {bytes : List UInt8}
    (phase : s.phase = .waiting call ∨ s.phase = .timedOut call) (promise : s.promise = none)
    (admits : call.Admits bytes)
    (outstanding : Outstanding (s.record s.calls).operation call bytes)
    (state : (s.serial, s.sent) = call.transferred bytes base)
    (hnoted : transfers = .ofCalls (done ++ [(call, bytes)]))
    (hs : s.resume s.calls = some s') : Stands base done (s', transfers) := by
  unfold SerialThreads.resume at hs
  split at hs
  · next call' need hoperation =>
    obtain rfl := Option.some.inj hs
    obtain ⟨rfl, hneed⟩ := outstanding.shape _ hoperation
    have hneed : need + 1 + bytes.length = call'.size := hneed
    refine stands_withRecord call' bytes phase promise admits (outstanding_of_short ?_ ?_) state
      hnoted
    · intro op hop
      obtain rfl := Option.some.inj hop
      exact ⟨rfl, hneed⟩
    · omega
  · cases hs

/-- The transfer that the call under way waits for fails. -/
theorem Stands.fail {call : SerialCall} {bytes : List UInt8}
    (phase : s.phase = .waiting call ∨ s.phase = .timedOut call) (promise : s.promise = none)
    (admits : call.Admits bytes)
    (outstanding : Outstanding (s.record s.calls).operation call bytes)
    (state : (s.serial, s.sent) = call.transferred bytes base)
    (hnoted : transfers = .ofCalls (done ++ [(call, bytes)]))
    (hs : s.fail s.calls = some s') : Stands base done (s', transfers) := by
  unfold SerialThreads.fail at hs
  split at hs
  · next call' need hoperation =>
    obtain rfl := Option.some.inj hs
    have hshort : bytes.length < call.size := by
      apply outstanding.short
      intro op hop
      rw [hoperation] at hop
      obtain rfl := Option.some.inj hop
      exact Progress.noConfusion
    refine stands_withRecord call bytes phase promise admits (outstanding_of_short ?_ hshort)
      state hnoted
    intro op hop
    obtain rfl := Option.some.inj hop
    exact ⟨(outstanding.shape _ hoperation).1, (outstanding.shape _ hoperation).2⟩
  · cases hs

/-- A step of the io thread about a call that is not running. -/
theorem Stands.settled (h : Stands base done (s, transfers)) (ha : a.about = some k)
    (hsettled : (s.record k).Settled) (hs : s.step a = some s') :
    Stands base done (s', noteTransfers transfers s a s') := by
  obtain ⟨rfl, hnote⟩ := step_of_settled transfers ha hsettled hs
  rw [hnote]
  rcases eq_or_ne k s.calls with rfl | hne
  · cases h with
    | idle phase state noted => exact .idle phase state noted
    | ongoing call bytes phase promise admits outstanding state noted =>
      -- the operation has failed, or its handler has run
      have hshort : bytes.length < call.size := by
        apply outstanding.short
        intro op hop
        rw [hsettled op hop]
        exact Progress.noConfusion
      exact stands_withRecord call bytes phase promise admits
        (outstanding_of_short (fun op hop => by cases hop) hshort) state noted
    | fulfilled call bytes answer phase promise admits operation state noted =>
      refine .fulfilled call bytes answer phase promise admits ?_ state noted
      show (update s.record s.calls _ s.calls).operation = none
      rw [update_self]
    | cancelled call bytes phase admits short state noted =>
      exact .cancelled call bytes phase admits short state noted
  · exact h.of_other hne _

/-- A step of the io thread. -/
theorem Stands.io (h : Stands base done (s, transfers)) (hlength : done.length = s.calls)
    (horderly : s.Orderly)
    (ha : a.about = some k) (hs : s.step a = some s') :
    Stands base done (s', noteTransfers transfers s a s') := by
  -- the operation is that of the call under way, or of another one
  rcases eq_or_ne k s.calls with rfl | hne
  · have hfits := horderly s.calls
    rw [stage_calls] at hfits
    cases h with
    | idle phase state noted =>
      rw [phase] at hfits
      have hrecord : s.record s.calls = {} := hfits
      refine Stands.settled (.idle phase state noted) ha ?_ hs
      simp [CallRecord.Settled, hrecord]
    | ongoing call bytes phase promise admits outstanding state noted =>
      cases a with
      | move j piece =>
        obtain rfl := Option.some.inj ha
        exact Stands.move hlength phase promise admits outstanding state noted hs
      | resume j =>
        obtain rfl := Option.some.inj ha
        exact Stands.resume phase promise admits outstanding state noted hs
      | fail j =>
        obtain rfl := Option.some.inj ha
        exact Stands.fail phase promise admits outstanding state noted hs
      | handle j =>
        obtain rfl := Option.some.inj ha
        exact Stands.handle phase promise admits outstanding state noted hs
      | start call => cases ha
      | ready => cases ha
      | timeout => cases ha
      | cancel thrown => cases ha
      | giveUp => cases ha
    | fulfilled call bytes answer phase promise admits operation state noted =>
      refine Stands.settled (.fulfilled call bytes answer phase promise admits operation state
        noted) ha ?_ hs
      simp only at operation
      simp [CallRecord.Settled, operation]
    | cancelled call bytes phase admits short state noted =>
      simp only at phase
      rw [phase] at hfits
      exact Stands.settled (.cancelled call bytes phase admits short state noted) ha hfits.2.2
        hs
  · refine h.settled ha ?_ hs
    -- an earlier call has left its operation settled, and a later one has none
    rcases lt_or_gt_of_ne hne with hlt | hgt
    · have hfits := horderly k
      rw [stage_of_lt hlt] at hfits
      exact hfits.2
    · have hfits := horderly k
      rw [stage_of_gt hgt] at hfits
      have hrecord : s.record k = {} := hfits
      simp [CallRecord.Settled, hrecord]

/-- A step of the io thread changes no answer. -/
theorem answer_of_io (ha : a.about = some k) (hs : s.step a = some s') (j : ℕ) :
    s'.calls = s.calls ∧ (s'.record j).answer = (s.record j).answer := by
  obtain ⟨answer, r, h⟩ : ∃ answer r, Advances s k answer r s' := by
    cases a with
    | move i piece =>
      obtain rfl := Option.some.inj ha
      exact ⟨none, advances_of_move hs⟩
    | resume i =>
      obtain rfl := Option.some.inj ha
      exact ⟨none, advances_of_resume hs⟩
    | fail i =>
      obtain rfl := Option.some.inj ha
      exact ⟨none, advances_of_fail hs⟩
    | handle i =>
      obtain rfl := Option.some.inj ha
      exact advances_of_handle hs
    | start call => cases ha
    | ready => cases ha
    | timeout => cases ha
    | cancel thrown => cases ha
    | giveUp => cases ha
  refine ⟨h.calls, ?_⟩
  rw [h.record]
  rcases eq_or_ne j k with rfl | hne
  · rw [update_self]
    cases h.advance <;> rfl
  · rw [update_of_ne hne]

/-! ### Steps of the caller -/

theorem Stands.start {call : SerialCall} (h : Stands base done (s, transfers))
    (hs : s.start call = some s') :
    Stands base done (s', noteTransfers transfers s (.start call) s') := by
  unfold SerialThreads.start at hs
  split at hs
  · next hphase =>
    obtain rfl := Option.some.inj hs
    cases h with
    | idle phase state noted =>
      refine .ongoing call [] (Or.inl rfl) rfl ?_ ?_ ?_ ?_
      · cases call with
        | read t => exact Nat.zero_le _
        | write t packet => exact List.nil_prefix
      · show Outstanding (update s.record s.calls _ s.calls).operation call []
        rw [update_self]
        refine outstanding_of_short (fun op hop => ?_) call.size_pos
        obtain rfl := Option.some.inj hop
        exact ⟨rfl, rfl⟩
      · cases call with
        | read t => simp [SerialCall.transferred, SerialController.append, ← state]
        | write t packet => simp [SerialCall.transferred, ← state]
      · rw [show transfers = .ofCalls done from noted, noteTransfers_start]
    | ongoing call' bytes phase promise admits outstanding state noted =>
      rcases phase with phase | phase <;> simp [hphase] at phase
    | fulfilled call' bytes answer phase promise admits operation state noted =>
      rcases phase with phase | phase <;> simp [hphase] at phase
    | cancelled call' bytes phase admits short state noted => simp [hphase] at phase
  · cases hs

theorem Stands.timeout (h : Stands base done (s, transfers)) (hs : s.timeout = some s') :
    Stands base done (s', transfers) := by
  unfold SerialThreads.timeout at hs
  split at hs
  · next call hphase hpromise =>
    obtain rfl := Option.some.inj hs
    cases h with
    | idle phase state noted => simp [hphase] at phase
    | ongoing call' bytes phase promise admits outstanding state noted =>
      obtain rfl : call = call' := by
        rcases phase with phase | phase
        · simpa [hphase] using phase
        · simp [hphase] at phase
      exact .ongoing call bytes (Or.inr rfl) promise admits outstanding state noted
    | fulfilled call' bytes answer phase promise admits operation state noted =>
      simp [hpromise] at promise
    | cancelled call' bytes phase admits short state noted => simp [hphase] at phase
  · cases hs

/-- A cancellation that interrupts the operation finds that it has not transferred everything. -/
theorem Stands.cancel {thrown : Bool} (h : Stands base done (s, transfers))
    (hinterrupts : s.Interrupts thrown) (hs : s.cancel thrown = some s') :
    Stands base done (s', transfers) := by
  unfold SerialThreads.cancel at hs
  split at hs
  · next call hphase =>
    obtain rfl := Option.some.inj hs
    cases h with
    | idle phase state noted => simp [hphase] at phase
    | ongoing call' bytes phase promise admits outstanding state noted =>
      obtain rfl : call = call' := by
        rcases phase with phase | phase
        · simp [hphase] at phase
        · simpa [hphase] using phase
      refine .cancelled call bytes rfl admits (outstanding.short fun op hop => ?_) state noted
      rcases hinterrupts.2 op hop with hprogress | ⟨-, hprogress⟩ <;> simp [hprogress]
    | fulfilled call' bytes answer phase promise admits operation state noted =>
      simp [hinterrupts.1] at promise
    | cancelled call' bytes phase admits short state noted => simp [hphase] at phase
  · cases hs

/-- A call that returns answers as the sequential call does that transfers the same bytes. -/
theorem Stands.returns (h : Stands base done (s, transfers))
    (hs : s.ready = some s' ∨ s.giveUp = some s') :
    ∃ call bytes answer, s' = s.finish answer ∧ SerialCall.Admits call bytes ∧
      ((s.serial, s.sent), answer) = call.perform bytes base ∧
      transfers = .ofCalls (done ++ [(call, bytes)]) := by
  rcases hs with hs | hs
  · unfold SerialThreads.ready at hs
    split at hs
    · next call answer hphase hpromise =>
      obtain rfl := Option.some.inj hs
      cases h with
      | idle phase state noted => simp [hphase] at phase
      | ongoing call' bytes phase promise admits outstanding state noted =>
        simp [hpromise] at promise
      | fulfilled call' bytes answer' phase promise admits operation state noted =>
        obtain rfl : answer = answer' := by simpa [hpromise] using promise
        -- the answer is the one of the promise
        exact ⟨call', bytes, answer, rfl, admits, state, noted⟩
      | cancelled call' bytes phase admits short state noted => simp [hphase] at phase
    · cases hs
  · unfold SerialThreads.giveUp at hs
    split at hs
    · next call hphase =>
      obtain rfl := Option.some.inj hs
      cases h with
      | idle phase state noted => simp [hphase] at phase
      | ongoing call' bytes phase promise admits outstanding state noted =>
        rcases phase with phase | phase <;> simp [hphase] at phase
      | fulfilled call' bytes answer phase promise admits operation state noted =>
        rcases phase with phase | phase <;> simp [hphase] at phase
      | cancelled call' bytes phase admits short state noted =>
        obtain rfl : call = call' := by simpa [hphase] using phase
        -- a call that gives up answers as one does that lacks bytes
        refine ⟨call, bytes, call.timeoutAnswer, rfl, admits, ?_, noted⟩
        rw [SerialCall.perform_of_short short, ← state]
    · cases hs

theorem answer_of_start {call : SerialCall} (hs : s.start call = some s') (j : ℕ) :
    s'.calls = s.calls ∧ (s'.record j).answer = (s.record j).answer := by
  unfold SerialThreads.start at hs
  split at hs
  · obtain rfl := Option.some.inj hs
    refine ⟨rfl, ?_⟩
    show (update s.record s.calls _ j).answer = _
    rcases eq_or_ne j s.calls with rfl | hne
    · rw [update_self]
    · rw [update_of_ne hne]
  · cases hs

theorem answer_of_timeout (hs : s.timeout = some s') (j : ℕ) :
    s'.calls = s.calls ∧ (s'.record j).answer = (s.record j).answer := by
  unfold SerialThreads.timeout at hs
  split at hs
  · obtain rfl := Option.some.inj hs
    exact ⟨rfl, rfl⟩
  · cases hs

theorem answer_of_cancel {thrown : Bool} (hs : s.cancel thrown = some s') (j : ℕ) :
    s'.calls = s.calls ∧ (s'.record j).answer = (s.record j).answer := by
  unfold SerialThreads.cancel at hs
  split at hs
  · obtain rfl := Option.some.inj hs
    refine ⟨rfl, ?_⟩
    show ((s.record j).cancel thrown).answer = _
    unfold CallRecord.cancel
    split_ifs <;> rfl
  · cases hs

/-! ### Runs -/

/-- A call that returns joins the history. -/
theorem Linear.finish {answer : SerialAnswer} {call : SerialCall} {bytes : List UInt8}
    {history : List (SerialCall × List UInt8)} (hadmits : ∀ q ∈ history, q.1.Admits q.2)
    (hanswers : (List.range s.calls).map (fun k => (s.record k).answer) =
      (SerialCall.sequential.outputs history).map some)
    (hcall : call.Admits bytes)
    (hperform : ((s.serial, s.sent), answer) =
      call.perform bytes (SerialCall.sequential.after history))
    (hnoted : transfers = .ofCalls (history ++ [(call, bytes)]))
    (horderly : (s.finish answer).Orderly) : Linear (s.finish answer, transfers) where
  orderly := horderly
  stands := by
    refine ⟨history ++ [(call, bytes)], ?_, ?_, .idle rfl ?_ hnoted⟩
    · intro q hq
      rcases List.mem_append.mp hq with hq | hq
      · exact hadmits q hq
      · obtain rfl := List.mem_singleton.mp hq
        exact hcall
    · -- the answers of the calls before are as they were
      have hbefore : (List.range s.calls).map (fun k => ((s.finish answer).record k).answer) =
          (List.range s.calls).map (fun k => (s.record k).answer) := by
        apply List.map_congr_left
        intro k hk
        show (update s.record s.calls _ k).answer = _
        rw [update_of_ne (List.mem_range.mp hk).ne]
      have hlast : ((s.finish answer).record s.calls).answer = some answer := by
        show (update s.record s.calls _ s.calls).answer = _
        rw [update_self]
      show (List.range (s.calls + 1)).map (fun k => ((s.finish answer).record k).answer) = _
      rw [List.range_succ, List.map_append, hbefore, hanswers, List.map_singleton, hlast,
        Automaton.outputs_snoc, List.map_append]
      exact congrArg (fun a => _ ++ [some a]) (congrArg Prod.snd hperform)
    · rw [Automaton.after_snoc]
      exact congrArg Prod.fst hperform

/-- Every step keeps it, if cancellations interrupt their operations. -/
theorem linear_step {p p' : SerialThreads × Transfers} (hcancels : p.1.Cancels a)
    (h : Linear p) (hs : watch step noteTransfers p a = some p') : Linear p' := by
  obtain ⟨s, transfers⟩ := p
  obtain ⟨s', transfers'⟩ := p'
  obtain ⟨hstep, hnote⟩ := watch_eq_some noteTransfers hs
  have hstep : s.step a = some s' := hstep
  have hnote : transfers' = noteTransfers transfers s a s' := hnote
  have horderly : s'.Orderly := h.orderly.step hcancels hstep
  obtain ⟨history, hadmits, hanswers, hstands⟩ := h.stands
  have hlength : history.length = s.calls := by
    simpa using (congrArg List.length hanswers).symm
  -- the calls that have returned stay as they are, but for the one that returns
  have hsame : s'.calls = s.calls → (∀ k, (s'.record k).answer = (s.record k).answer) →
      (List.range s'.calls).map (fun k => (s'.record k).answer) =
        (SerialCall.sequential.outputs history).map some := by
    intro hcalls hanswer
    rw [hcalls, ← hanswers]
    exact List.map_congr_left fun k _ => hanswer k
  cases hk : a.about with
  | some k =>
    have hio := answer_of_io hk hstep
    rw [hnote]
    exact ⟨horderly, history, hadmits, hsame (hio 0).1 fun j => (hio j).2,
      hstands.io hlength h.orderly hk hstep⟩
  | none =>
    cases a with
    | move j piece => cases hk
    | resume j => cases hk
    | fail j => cases hk
    | handle j => cases hk
    | start call =>
      rw [hnote]
      exact ⟨horderly, history, hadmits, hsame (answer_of_start hstep 0).1 fun k =>
        (answer_of_start hstep k).2, hstands.start hstep⟩
    | timeout =>
      obtain rfl : transfers' = transfers := hnote
      exact ⟨horderly, history, hadmits, hsame (answer_of_timeout hstep 0).1 fun k =>
        (answer_of_timeout hstep k).2, hstands.timeout hstep⟩
    | cancel thrown =>
      obtain rfl : transfers' = transfers := hnote
      exact ⟨horderly, history, hadmits, hsame (answer_of_cancel hstep 0).1 fun k =>
        (answer_of_cancel hstep k).2, hstands.cancel hcancels hstep⟩
    | ready =>
      obtain rfl : transfers' = transfers := hnote
      obtain ⟨call, bytes, answer, rfl, hcall, hperform, hnoted⟩ :=
        hstands.returns (Or.inl hstep)
      exact Linear.finish hadmits hanswers hcall hperform hnoted horderly
    | giveUp =>
      obtain rfl : transfers' = transfers := hnote
      obtain ⟨call, bytes, answer, rfl, hcall, hperform, hnoted⟩ :=
        hstands.returns (Or.inr hstep)
      exact Linear.finish hadmits hanswers hcall hperform hnoted horderly

/-- What is noted with a call leaves the call as it is. -/
theorem map_fst_modify (calls : List (SerialCall × List UInt8)) (k : ℕ) (piece : List UInt8) :
    (calls.modify k fun q => (q.1, q.2 ++ piece)).map Prod.fst = calls.map Prod.fst := by
  induction calls generalizing k with
  | nil => simp
  | cons q calls ih =>
    cases k with
    | zero => simp
    | succ k => simp [ih]

/-- The calls noted are those that the steps of the run start. -/
theorem calls_of_run {p q : SerialThreads × Transfers} {acts : List ThreadAction}
    (h : run (watch step noteTransfers) p acts = some q) :
    q.2.calls.map Prod.fst = p.2.calls.map Prod.fst ++ acts.filterMap ThreadAction.started := by
  induction acts generalizing p with
  | nil =>
    obtain rfl := Option.some.inj h
    exact (List.append_nil _).symm
  | cons a acts ih =>
    obtain ⟨p', hstep, hrest⟩ := Option.bind_eq_some_iff.mp h
    have hnote : p'.2 = noteTransfers p.2 p.1 a p'.1 := (watch_eq_some noteTransfers hstep).2
    rw [ih hrest, hnote]
    cases a with
    | start call =>
      rw [noteTransfers, List.map_append, List.append_assoc]
      rfl
    | move k piece =>
      rw [noteTransfers, map_fst_modify]
      rfl
    | ready => rfl
    | timeout => rfl
    | cancel thrown => rfl
    | giveUp => rfl
    | resume k => rfl
    | fail k => rfl
    | handle k => rfl

/-- **Calls as single steps.** Wherever the caller is idle, whatever the order in which the threads
took their steps: if each cancellation interrupted its operation, the answers so far, the buffer and
the bytes handed to the port are those of the same calls made one after the other, each with the
bytes that its operation transferred. What these calls receive is what the reads have received, in
order, so none of it is lost or duplicated: it is in the packets returned and in the buffer. -/
theorem sequential_of_run {acts : List ThreadAction} {s : SerialThreads}
    {transfers : Transfers} (hmeets : Meets step Cancels {} acts)
    (h : run (watch step noteTransfers) ({}, {}) acts = some (s, transfers))
    (hidle : s.phase = .idle) :
    transfers.calls.map Prod.fst = acts.filterMap ThreadAction.started ∧
      (∀ q ∈ transfers.calls, q.1.Admits q.2) ∧
      (List.range s.calls).map (fun k => (s.record k).answer) =
        (SerialCall.sequential.outputs transfers.calls).map some ∧
      SerialCall.sequential.after transfers.calls = (s.serial, s.sent) ∧
      (transfers.calls.flatMap fun q => q.1.received q.2) = transfers.received ∧
      (SerialCall.sequential.outputs transfers.calls).flatMap SerialAnswer.bytes ++
        s.serial.streamBuffer = transfers.received := by
  have hlinear : Linear (s, transfers) :=
    run_induction_of_meets linear_init (fun _ _ _ hc hp hs => linear_step hc hp hs)
      (meets_watch noteTransfers hmeets) h
  obtain ⟨history, hadmits, hanswers, hstands⟩ := hlinear.stands
  have hstarted := calls_of_run h
  cases hstands with
  | idle phase state noted =>
    obtain rfl : transfers = .ofCalls history := noted
    have hconserved := SerialCall.received_sequential hadmits
    rw [← state] at hconserved
    exact ⟨hstarted, hadmits, hanswers, state.symm, rfl, hconserved⟩
  | ongoing call bytes phase promise admits outstanding state noted =>
    rcases phase with phase | phase <;> simp [hidle] at phase
  | fulfilled call bytes answer phase promise admits operation state noted =>
    rcases phase with phase | phase <;> simp [hidle] at phase
  | cancelled call bytes phase admits short state noted => simp [hidle] at phase

/-- A read that is interrupted while it waits, and one that receives its byte. -/
theorem sequential_of_run_interruptedRead :
    ∃ s transfers,
      run (watch step noteTransfers) ({}, {}) interruptedRead = some (s, transfers) ∧
      transfers.calls = [(.read .handshake, []), (.read .handshake, [1])] ∧
      (transfers.calls.map Prod.fst = interruptedRead.filterMap ThreadAction.started ∧
        (∀ q ∈ transfers.calls, q.1.Admits q.2) ∧
        (List.range s.calls).map (fun k => (s.record k).answer) =
          (SerialCall.sequential.outputs transfers.calls).map some ∧
        SerialCall.sequential.after transfers.calls = (s.serial, s.sent) ∧
        (transfers.calls.flatMap fun q => q.1.received q.2) = transfers.received ∧
        (SerialCall.sequential.outputs transfers.calls).flatMap SerialAnswer.bytes ++
          s.serial.streamBuffer = transfers.received) :=
  ⟨_, _, rfl, rfl,
    sequential_of_run (by decide : Meets step Cancels {} interruptedRead) rfl rfl⟩

end SerialThreads

end RcPlane
