import RcPlane.Serial.Threads

/-!
# Truthful calls

What a call of `readPacket` or `writePacket` reports is what its operation did, as long as every
cancellation finds the operation waiting for its next transfer, or failed. Where the last bytes
have been moved already, the cancellation comes too late: the handler will run with success, but
the call has decided otherwise.

## Main definitions

* `CallRecord.Truthful`: what a call reports is what its operation did
* `CallStage`, `CallStage.Fits`: where a call stands, and what holds of its record there
* `SerialThreads.Orderly`: the record of each call fits its stage
* `SerialThreads.Interrupts`: a cancellation finds its operation waiting or failed

## Main results

* `SerialThreads.truthful_of_meets`: calls are truthful along every run whose cancellations
  interrupt their operations
* `SerialThreads.exists_run_readPacket`, `SerialThreads.exists_run_writePacket`: a call of the
  sequential model is a run of the threads
-/

namespace RcPlane

open Foundation Function

/-! ## Truthful calls -/

namespace CallRecord

/-- What a call reports is what its operation did: a read that reports a timeout has removed
nothing, a packet that was removed is the one returned, and a write that reports a failure has not
handed over its packet. -/
structure Truthful (r : CallRecord) : Prop where
  timedOut : ∀ t result, r.answer = some (.read t result) → result.didTimeout = true →
    r.removed = none
  removed : ∀ t packet answer, r.removed = some ⟨t, packet⟩ → r.answer = some answer →
    answer = .read t { packet := packet, didTimeout := false }
  handedOver : r.answer = some (.write false) → r.handedOver = false

/-- The operation has failed, or its handler has run. -/
def Settled (r : CallRecord) : Prop := ∀ op, r.operation = some op → op.progress = .failed

/-- A cancellation finds the operation failed or, if it reaches the port, waiting for a transfer. -/
def Interruptible (thrown : Bool) (r : CallRecord) : Prop :=
  ∀ op ∈ r.operation, op.progress = .failed ∨ thrown = false ∧ op.progress = .transferring

instance (thrown : Bool) (r : CallRecord) : Decidable (r.Interruptible thrown) :=
  inferInstanceAs (Decidable (∀ op ∈ r.operation, _))

/-- The operation has had no effect that a call can report. -/
structure Silent (r : CallRecord) : Prop where
  removed : r.removed = none
  handedOver : r.handedOver = false

/-- What holds of the record of a call that waits, or has stopped waiting, with the given promise:
it has removed nothing until the promise is fulfilled, and has handed its packet over at most with
its handler about to run; the promise, once fulfilled, tells the truth. -/
structure Running (promise : Option SerialAnswer) (r : CallRecord) : Prop where
  answer : r.answer = none
  pending : promise = none → r.removed = none ∧
    (r.handedOver = true → ∃ call, r.operation = some ⟨call, 0, .moved⟩)
  fulfilled : ∀ a, promise = some a → r.operation = none ∧ Truthful { r with answer := some a }

variable {r r' : CallRecord} {answer : Option SerialAnswer}

theorem truthful_of_answer_eq_none (h : r.answer = none) : r.Truthful where
  timedOut t result ha := by simp [h] at ha
  removed t packet a _ ha := by simp [h] at ha
  handedOver ha := by simp [h] at ha

/-- A call that times out tells the truth if its operation has had no effect. -/
theorem Silent.truthful (h : r.Silent) (call : SerialCall) :
    Truthful { r with answer := some call.timeoutAnswer } where
  timedOut _ _ _ _ := h.removed
  removed t packet a hremoved := by simp [h.removed] at hremoved
  handedOver _ := h.handedOver

/-- A read that returns the packet that it removed tells the truth. -/
theorem truthful_read {t : PacketType} (packet : t.Packet) :
    Truthful { r with
      operation := none
      removed := some ⟨t, packet⟩
      answer := some (.read t { packet := packet, didTimeout := false }) } where
  timedOut t' result hresult htimeout := by
    obtain ⟨rfl, hresult⟩ := SerialAnswer.read.inj (Option.some.inj hresult)
    rw [← eq_of_heq hresult] at htimeout
    cases htimeout
  removed t' packet' a hremoved ha := by
    cases hremoved
    exact (Option.some.inj ha).symm
  handedOver hfalse := by cases hfalse

/-- Nothing happens to a settled operation but that its handler runs with an error. -/
theorem Settled.advance (h : r.Settled) (ha : Advance r answer r') :
    answer = none ∧ r' = { r with operation := none } := by
  cases ha with
  | dropped operation => exact ⟨rfl, rfl⟩
  | received _ operation => cases h _ operation
  | sent _ operation => cases h _ operation
  | resumed operation => cases h _ operation
  | failed operation => cases h _ operation
  | read packet operation => cases h _ operation
  | written operation => cases h _ operation

/-- A packet is handed over at most with its handler about to run. -/
theorem Running.handedOver_eq_false (h : r.Running none)
    (hoperation : ∀ call, r.operation ≠ some ⟨call, 0, .moved⟩) : r.handedOver = false := by
  rw [← Bool.not_eq_true]
  intro htrue
  obtain ⟨call, hmoved⟩ := (h.pending rfl).2 htrue
  exact hoperation call hmoved

/-- A call stays as it was that has removed nothing and has not handed over its packet. -/
theorem running_none_of_silent (hanswer : r.answer = none) (h : r.Silent) : r.Running none :=
  ⟨hanswer, fun _ => ⟨h.removed, fun htrue => by simp [h.handedOver] at htrue⟩,
    fun a ha => by cases ha⟩

/-- A call that is running stays so, with the promise as it is fulfilled. -/
theorem Running.advance (h : r.Running none) (ha : Advance r answer r') : r'.Running answer := by
  have hanswer := h.answer
  have hremoved := (h.pending rfl).1
  cases ha with
  | received need' operation =>
    have hfalse := h.handedOver_eq_false (by simp [operation])
    exact running_none_of_silent hanswer ⟨hremoved, hfalse⟩
  | sent need' operation =>
    -- the last bytes may be among those handed over
    refine ⟨hanswer, fun _ => ⟨hremoved, fun hzero => ?_⟩, by simp⟩
    simp only [decide_eq_true_eq] at hzero
    exact ⟨_, by rw [hzero]⟩
  | resumed operation =>
    have hfalse := h.handedOver_eq_false (by simp [operation])
    exact running_none_of_silent hanswer ⟨hremoved, hfalse⟩
  | failed operation =>
    have hfalse := h.handedOver_eq_false (by simp [operation])
    exact running_none_of_silent hanswer ⟨hremoved, hfalse⟩
  | dropped operation =>
    have hfalse := h.handedOver_eq_false (by simp [operation])
    exact running_none_of_silent hanswer ⟨hremoved, hfalse⟩
  | read packet operation =>
    refine ⟨hanswer, by simp, fun a ha => ⟨rfl, ?_⟩⟩
    obtain rfl := Option.some.inj ha
    exact truthful_read packet
  | written operation =>
    refine ⟨hanswer, by simp, fun a ha => ⟨rfl, ?_⟩⟩
    obtain rfl := Option.some.inj ha
    exact ⟨by simp, by simp [hremoved], by simp⟩

/-- A settled operation is out of reach of a cancellation. -/
theorem Settled.cancel (h : r.Settled) (thrown : Bool) : r.cancel thrown = r := by
  obtain ⟨operation, removed, handedOver, answer⟩ := r
  cases operation with
  | none => simp [CallRecord.cancel]
  | some op =>
    have hfailed : op.progress = .failed := h op rfl
    simp [CallRecord.cancel, Operation.cancel, hfailed]

/-- A cancellation that interrupts the operation leaves it failed, before it has had an effect. -/
theorem Running.interrupted {thrown : Bool} (h : r.Running none) (hr : r.Interruptible thrown) :
    (r.cancel thrown).answer = none ∧ (r.cancel thrown).Silent ∧
      (r.cancel thrown).Settled := by
  have hanswer := h.answer
  have hremoved := (h.pending rfl).1
  have hhandedOver := h.handedOver_eq_false fun call hoperation => by
    rcases hr _ hoperation with hprogress | ⟨-, hprogress⟩ <;> cases hprogress
  cases thrown with
  | true =>
    refine ⟨hanswer, ⟨hremoved, hhandedOver⟩, fun op hop => ?_⟩
    exact (hr op hop).resolve_right (by simp)
  | false =>
    refine ⟨hanswer, ⟨hremoved, hhandedOver⟩, fun op hop => ?_⟩
    obtain ⟨op', hop', rfl⟩ := Option.map_eq_some_iff.mp hop
    rcases hr op' hop' with hprogress | ⟨-, hprogress⟩
    · rw [Operation.cancel, if_neg (by simp [hprogress]), hprogress]
    · rw [Operation.cancel, if_pos hprogress]

end CallRecord

/-! ## Where a call stands -/

/-- The stages of a call: it has not begun, it waits or has stopped waiting with its promise in the
given state, it has cancelled its operation, or it has returned. -/
inductive CallStage
  | toCome
  | running (promise : Option SerialAnswer)
  | cancelled
  | returned

namespace CallStage

/-- What holds of the record of a call at each stage. -/
def Fits : CallStage → CallRecord → Prop
  | toCome, r => r = {}
  | running promise, r => r.Running promise
  | cancelled, r => r.answer = none ∧ r.Silent ∧ r.Settled
  | returned, r => r.Truthful ∧ r.Settled

/-- The stage of a call whose promise may be fulfilled. -/
def fulfil : CallStage → Option SerialAnswer → CallStage
  | running promise, answer => running (answer.or promise)
  | stage, _ => stage

variable {stage : CallStage} {r r' : CallRecord} {answer : Option SerialAnswer}

theorem Fits.truthful (h : stage.Fits r) : r.Truthful := by
  cases stage with
  | toCome => exact CallRecord.truthful_of_answer_eq_none (by rw [show r = {} from h])
  | running promise => exact CallRecord.truthful_of_answer_eq_none (CallRecord.Running.answer h)
  | cancelled => exact CallRecord.truthful_of_answer_eq_none h.1
  | returned => exact h.1

/-- A step of the io thread keeps what holds of its call. -/
theorem Fits.advance (h : stage.Fits r) (ha : Advance r answer r') :
    (stage.fulfil answer).Fits r' := by
  cases stage with
  | toCome =>
    have hr : r = {} := h
    subst hr
    obtain ⟨-, rfl⟩ := CallRecord.Settled.advance (by simp [CallRecord.Settled]) ha
    rfl
  | running promise =>
    -- an operation is outstanding, so its promise is not fulfilled
    have hpromise : promise = none := by
      by_contra hne
      obtain ⟨a, rfl⟩ := Option.ne_none_iff_exists'.mp hne
      exact ha.operation_ne_none (h.fulfilled a rfl).1
    subst hpromise
    rw [fulfil, Option.or_none]
    exact CallRecord.Running.advance h ha
  | cancelled =>
    obtain ⟨hanswer, hsilent, hsettled⟩ := h
    obtain ⟨-, rfl⟩ := hsettled.advance ha
    exact ⟨hanswer, ⟨hsilent.removed, hsilent.handedOver⟩, by simp [CallRecord.Settled]⟩
  | returned =>
    obtain ⟨htruthful, hsettled⟩ := h
    obtain ⟨-, rfl⟩ := hsettled.advance ha
    exact ⟨⟨htruthful.timedOut, htruthful.removed, htruthful.handedOver⟩,
      by simp [CallRecord.Settled]⟩

/-- A cancellation does nothing to a call that is not running. -/
theorem Fits.cancel (h : stage.Fits r) (hne : ∀ promise, stage ≠ running promise)
    (thrown : Bool) : stage.Fits (r.cancel thrown) := by
  have hsettled : r.Settled := by
    cases stage with
    | toCome =>
      have hr : r = {} := h
      simp [CallRecord.Settled, hr]
    | running promise => cases hne promise rfl
    | cancelled => exact h.2.2
    | returned => exact h.2
  rwa [hsettled.cancel]

end CallStage

namespace SerialThreads

/-- The stage of each call. -/
def stage (s : SerialThreads) (k : ℕ) : CallStage :=
  if k < s.calls then .returned
  else if k = s.calls then
    match s.phase with
    | .idle => .toCome
    | .waiting _ => .running s.promise
    | .timedOut _ => .running s.promise
    | .cancelled _ => .cancelled
  else .toCome

/-- The record of each call fits its stage. -/
def Orderly (s : SerialThreads) : Prop := ∀ k, (s.stage k).Fits (s.record k)

/-- A cancellation finds the promise not fulfilled, and the operation of the call under way where
it can be interrupted. -/
def Interrupts (s : SerialThreads) (thrown : Bool) : Prop :=
  s.promise = none ∧ (s.record s.calls).Interruptible thrown

instance (s : SerialThreads) (thrown : Bool) : Decidable (s.Interrupts thrown) :=
  inferInstanceAs (Decidable (_ ∧ _))

/-- Every cancellation interrupts its operation. -/
def Cancels (s : SerialThreads) : ThreadAction → Prop
  | .cancel thrown => s.Interrupts thrown
  | _ => True

instance (s : SerialThreads) : ∀ a, Decidable (s.Cancels a)
  | .cancel thrown => inferInstanceAs (Decidable (s.Interrupts thrown))
  | .start _ | .ready | .timeout | .giveUp | .move _ _ | .resume _ | .fail _ | .handle _ =>
    inferInstanceAs (Decidable True)

variable {s s' : SerialThreads} {k : ℕ}

theorem stage_of_lt (h : k < s.calls) : s.stage k = .returned := if_pos h

theorem stage_of_gt (h : s.calls < k) : s.stage k = .toCome := by
  rw [stage, if_neg (by omega), if_neg (by omega)]

theorem stage_calls : s.stage s.calls =
    match s.phase with
    | .idle => .toCome
    | .waiting _ => .running s.promise
    | .timedOut _ => .running s.promise
    | .cancelled _ => .cancelled := by
  rw [stage, if_neg (lt_irrefl _), if_pos rfl]

/-- The stages of the calls but the one under way depend on its number only. -/
theorem stage_of_ne (hcalls : s'.calls = s.calls) (hne : k ≠ s.calls) :
    s'.stage k = s.stage k := by
  rcases lt_or_gt_of_ne hne with hlt | hgt
  · rw [stage_of_lt hlt, stage_of_lt (hcalls ▸ hlt)]
  · rw [stage_of_gt hgt, stage_of_gt (hcalls ▸ hgt)]

theorem stage_ne_running (hne : k ≠ s.calls) (promise : Option SerialAnswer) :
    s.stage k ≠ .running promise := by
  rcases lt_or_gt_of_ne hne with hlt | hgt
  · simp [stage_of_lt hlt]
  · simp [stage_of_gt hgt]

theorem Advances.stage_self {answer : Option SerialAnswer} {r : CallRecord}
    (ha : Advances s k answer r s') : s'.stage k = (s.stage k).fulfil answer := by
  rcases lt_trichotomy k s.calls with hlt | rfl | hgt
  · rw [stage_of_lt hlt, stage_of_lt (ha.calls ▸ hlt)]
    rfl
  · have hpromise := ha.promise
    rw [if_pos rfl] at hpromise
    rw [stage_calls, ← ha.calls, stage_calls, ha.phase, hpromise]
    cases s.phase <;> rfl
  · rw [stage_of_gt hgt, stage_of_gt (ha.calls ▸ hgt)]
    rfl

theorem Advances.stage_of_ne {answer : Option SerialAnswer} {r : CallRecord} {j : ℕ}
    (ha : Advances s k answer r s') (hne : j ≠ k) : s'.stage j = s.stage j := by
  rcases eq_or_ne j s.calls with rfl | hj
  · have hpromise := ha.promise
    rw [if_neg hne.symm] at hpromise
    rw [stage_calls, ← ha.calls, stage_calls, ha.phase, hpromise]
  · exact SerialThreads.stage_of_ne ha.calls hj

/-- The calls are as they stand at first. -/
theorem orderly_init : Orderly {} := fun k => by
  rcases Nat.eq_zero_or_pos k with rfl | hpos
  · rfl
  · rw [stage_of_gt hpos]
    rfl

/-! ### Steps -/

/-- A step that concerns the call under way only. -/
theorem Orderly.of_update {r : CallRecord} (h : s.Orderly) (hcalls : s'.calls = s.calls)
    (hrecord : s'.record = update s.record s.calls r) (hfits : (s'.stage s.calls).Fits r) :
    s'.Orderly := by
  intro k
  rw [hrecord]
  rcases eq_or_ne k s.calls with rfl | hne
  · rwa [update_self]
  · rw [update_of_ne hne, stage_of_ne hcalls hne]
    exact h k

theorem Orderly.start {call : SerialCall} (h : s.Orderly) (hs : s.start call = some s') :
    s'.Orderly := by
  unfold SerialThreads.start at hs
  split at hs
  · next hphase =>
    obtain rfl := Option.some.inj hs
    refine h.of_update rfl rfl ?_
    have hr : s.record s.calls = {} := by
      have hcalls := h s.calls
      rwa [stage_calls, hphase] at hcalls
    rw [hr]
    simp only [stage, lt_irrefl, if_false, if_true]
    exact ⟨rfl, fun _ => ⟨rfl, by simp⟩, by simp⟩
  · cases hs

/-- A call returns with an answer that is true of its operation, which is settled. -/
theorem Orderly.finish {answer : SerialAnswer} (h : s.Orderly)
    (htruthful : CallRecord.Truthful { s.record s.calls with answer := some answer })
    (hsettled : (s.record s.calls).Settled) : (s.finish answer).Orderly := by
  intro k
  change ((s.finish answer).stage k).Fits (update s.record s.calls _ k)
  rcases lt_trichotomy k s.calls with hlt | rfl | hgt
  · rw [update_of_ne hlt.ne, stage_of_lt (show k < s.calls + 1 by omega), ← stage_of_lt hlt]
    exact h k
  · rw [update_self, stage_of_lt (show s.calls < s.calls + 1 by omega)]
    exact ⟨htruthful, hsettled⟩
  · -- the next call has not begun either
    have htoCome : (s.finish answer).stage k = .toCome := by
      rcases eq_or_ne k (s.calls + 1) with rfl | hne
      · exact stage_calls
      · exact stage_of_gt (show s.calls + 1 < k by omega)
    rw [update_of_ne hgt.ne', htoCome, ← stage_of_gt hgt]
    exact h k

theorem Orderly.ready (h : s.Orderly) (hs : s.ready = some s') : s'.Orderly := by
  unfold SerialThreads.ready at hs
  split at hs
  · next call answer hphase hpromise =>
    obtain rfl := Option.some.inj hs
    have hrunning := h s.calls
    rw [stage_calls, hphase] at hrunning
    obtain ⟨hoperation, htruthful⟩ := hrunning.fulfilled answer hpromise
    exact h.finish htruthful (by simp [CallRecord.Settled, hoperation])
  · cases hs

theorem Orderly.timeout (h : s.Orderly) (hs : s.timeout = some s') : s'.Orderly := by
  unfold SerialThreads.timeout at hs
  split at hs
  · next call hphase hpromise =>
    obtain rfl := Option.some.inj hs
    intro k
    have hstage : ({ s with phase := .timedOut call } : SerialThreads).stage k = s.stage k := by
      rw [stage, stage, hphase]
    rw [hstage]
    exact h k
  · cases hs

theorem Orderly.cancel {thrown : Bool} (h : s.Orderly) (hinterrupts : s.Interrupts thrown)
    (hs : s.cancel thrown = some s') : s'.Orderly := by
  unfold SerialThreads.cancel at hs
  split at hs
  · next call hphase =>
    have hcalls : s'.calls = s.calls := by rw [← Option.some.inj hs]
    obtain rfl := Option.some.inj hs
    intro k
    rcases eq_or_ne k s.calls with rfl | hne
    · have hrunning := h s.calls
      rw [stage_calls, hphase, hinterrupts.1] at hrunning
      rw [stage_calls]
      exact CallRecord.Running.interrupted hrunning hinterrupts.2
    · rw [stage_of_ne hcalls hne]
      exact (h k).cancel (stage_ne_running hne) thrown
  · cases hs

theorem Orderly.giveUp (h : s.Orderly) (hs : s.giveUp = some s') : s'.Orderly := by
  unfold SerialThreads.giveUp at hs
  split at hs
  · next call hphase =>
    obtain rfl := Option.some.inj hs
    have hcancelled := h s.calls
    rw [stage_calls, hphase] at hcancelled
    obtain ⟨-, hsilent, hsettled⟩ := hcancelled
    exact h.finish (hsilent.truthful call) hsettled
  · cases hs

/-- A step of the io thread. -/
theorem Orderly.advance {answer : Option SerialAnswer} {r : CallRecord} (h : s.Orderly)
    (ha : Advances s k answer r s') : s'.Orderly := by
  intro j
  rw [ha.record]
  rcases eq_or_ne j k with rfl | hne
  · rw [update_self, ha.stage_self]
    exact (h j).advance ha.advance
  · rw [update_of_ne hne, ha.stage_of_ne hne]
    exact h j

theorem Orderly.step {a : ThreadAction} (hcancels : s.Cancels a) (h : s.Orderly)
    (hs : s.step a = some s') : s'.Orderly := by
  cases a with
  | start call => exact h.start hs
  | ready => exact h.ready hs
  | timeout => exact h.timeout hs
  | cancel thrown => exact h.cancel hcancels hs
  | giveUp => exact h.giveUp hs
  | move k piece =>
    obtain ⟨r, ha⟩ := advances_of_move hs
    exact h.advance ha
  | resume k =>
    obtain ⟨r, ha⟩ := advances_of_resume hs
    exact h.advance ha
  | fail k =>
    obtain ⟨r, ha⟩ := advances_of_fail hs
    exact h.advance ha
  | handle k =>
    obtain ⟨answer, r, ha⟩ := advances_of_handle hs
    exact h.advance ha

/-- **Truthful calls.** Whatever the order in which the threads take their steps, every call
reports what its operation did, if each cancellation interrupts its operation. -/
theorem truthful_of_meets {acts : List ThreadAction} {s : SerialThreads}
    (hmeets : Meets step Cancels {} acts) (h : run step {} acts = some s) (k : ℕ) :
    (s.record k).Truthful :=
  have horderly : s.Orderly :=
    run_induction_of_meets orderly_init (fun _ _ _ hc h hs => h.step hc hs) hmeets h
  (horderly k).truthful

/-- A read that is interrupted while it waits for its transfer, and one that completes. -/
def interruptedRead : List ThreadAction :=
  [.start (.read .handshake), .timeout, .cancel false, .giveUp, .handle 0,
    .start (.read .handshake), .move 1 [1], .handle 1, .ready]

theorem truthful_of_meets_interruptedRead :
    ∃ s, run step {} interruptedRead = some s ∧ ∀ k, (s.record k).Truthful :=
  ⟨_, rfl, truthful_of_meets (by decide : Meets step Cancels {} interruptedRead) rfl⟩

/-- A read whose byte has arrived when it is cancelled reports a timeout and removes the byte, and
a write whose byte has been handed over reports a failure. -/
theorem untruthful_calls :
    (∃ s, run step {} [.start (.read .handshake), .move 0 [1], .timeout, .cancel false, .giveUp,
        .handle 0] = some s ∧ ¬ (s.record 0).Truthful) ∧
    ∃ s, run step {} [.start (.write .handshake ⟨1⟩), .move 0 [1], .timeout, .cancel false,
        .giveUp] = some s ∧ ¬ (s.record 0).Truthful := by
  refine ⟨⟨_, rfl, fun h => ?_⟩, ⟨_, rfl, fun h => ?_⟩⟩
  · have hremoved := h.timedOut .handshake {} rfl rfl
    cases hremoved
  · have hhandedOver := h.handedOver rfl
    cases hhandedOver

/-! ## Calls that are left alone -/

/-- The transfer brings a whole packet, and the handler runs before the wait ends. -/
theorem exists_run_of_completed {t : PacketType} {piece : List UInt8} (hphase : s.phase = .idle)
    (hlength : piece.length = t.codec.size) :
    ∃ acts s', Meets step Cancels s acts ∧ run step s acts = some s' ∧
      s'.serial = ((s.serial.append piece).completeRead t).2 ∧
      (s'.record s.calls).answer = some (.read t ((s.serial.append piece).completeRead t).1) := by
  refine ⟨[.start (.read t), .move s.calls piece, .handle s.calls, .ready], ?_⟩
  simp [Meets, Cancels, step, start, move, handle, ready, finish, SerialCall.size,
    hphase, hlength]

/-- The transfer brings less than a packet, and the next one has begun when the wait ends. -/
theorem exists_run_of_timedOut {t : PacketType} {piece : List UInt8} (hphase : s.phase = .idle)
    (hlength : piece.length < t.codec.size) :
    ∃ acts s', Meets step Cancels s acts ∧ run step s acts = some s' ∧
      s'.serial = s.serial.append piece ∧
      (s'.record s.calls).answer = some (.read t {}) := by
  obtain ⟨need, hneed⟩ := Nat.exists_eq_add_of_lt hlength
  have hrest : t.codec.size - piece.length = need + 1 := by omega
  refine ⟨[.start (.read t), .move s.calls piece, .resume s.calls, .timeout, .cancel false,
    .handle s.calls, .giveUp], ?_⟩
  simp [Meets, Cancels, Interrupts, CallRecord.Interruptible, step, start, move, resume, timeout,
    cancel, CallRecord.cancel, Operation.cancel, handle, giveUp, finish,
    SerialCall.size, SerialCall.timeoutAnswer, hphase, hlength.le, hrest]

/-- **Sequential calls.** A call of the sequential model is a run of the threads, in which the
cancellation interrupts the operation. -/
theorem exists_run_readPacket (hphase : s.phase = .idle) (t : PacketType) (pieces : List ℕ)
    (port : List UInt8) :
    ∃ acts s', Meets step Cancels s acts ∧ run step s acts = some s' ∧
      s'.serial = (s.serial.readPacket t pieces port).2.1 ∧
      (s'.record s.calls).answer =
        some (.read t (s.serial.readPacket t pieces port).1) := by
  rw [SerialController.readPacket, SerialController.transfer_eq]
  have hlength : (port.take (min pieces.sum (min t.codec.size port.length))).length =
      min pieces.sum (min t.codec.size port.length) := by
    rw [List.length_take]
    omega
  split
  · next heq =>
    obtain ⟨hzero, rfl, -⟩ := by simpa only [Prod.mk.injEq] using heq
    exact exists_run_of_completed hphase (by omega)
  · next heq =>
    obtain ⟨hsucc, rfl, -⟩ := by simpa only [Prod.mk.injEq] using heq
    exact exists_run_of_timedOut hphase (by omega)

theorem exists_run_writePacket (hphase : s.phase = .idle) (t : PacketType) (packet : t.Packet) :
    ∃ acts s', Meets step Cancels s acts ∧ run step s acts = some s' ∧
      s'.sent = SerialController.writePacket t packet s.sent ∧
      (s'.record s.calls).answer = some (.write true) := by
  refine ⟨[.start (.write t packet), .move s.calls (t.codec.encode packet), .handle s.calls,
    .ready], ?_⟩
  simp [Meets, Cancels, step, start, move, handle, ready, finish, SerialCall.size,
    SerialController.writePacket, t.codec.length_encode, hphase]

end SerialThreads

end RcPlane
