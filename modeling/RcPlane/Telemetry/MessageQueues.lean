import RcPlane.Foundation.Network
import RcPlane.Foundation.Queue
import RcPlane.Som.SomController

/-!
# The telemetry queues

`sendTelemetry` tries to send one message to each of three bounded queues, drops what a full queue
refuses, and goes on; the receiver takes one message from each and combines the three. Sender and
receiver interleave in any order.

## Main definitions

* `Topic`, `Sent`: the queues, and a message with the call that sent it
* `TelemetryQueues`: the queues with both program counters, and the history of a run
* `TelemetryQueues.trySend`, `TelemetryQueues.receive`: the steps
* `TelemetryQueues.AllOrNone`: a call finds room in all three queues, or in none

## Main results

* `TelemetryQueues.ordered_of_run`: what a queue accepts comes out in the order of the calls
* `TelemetryQueues.messages_of_fromOneCall`: a consistent round combines what its call sent
* `TelemetryQueues.mem_accepted_iff`: a queue accepts the messages of the calls that find room
* `TelemetryQueues.consistent_iff_allOrNone`: the rounds are consistent exactly when no call up to
  the last round finds room in some queues only
-/

namespace RcPlane

open Foundation

/-! ## Messages -/

/-- The queues, in the order in which they are sent to and received from. -/
inductive Topic
  | debug
  | attitude
  | onboard
deriving DecidableEq, Repr

namespace Topic

/-- The messages of a queue. -/
def Message (D : Type) : Topic → Type
  | debug => DebugMessage
  | attitude => AttitudeMessage D
  | onboard => OnboardStateMessage

/-- The place of a queue in the order. -/
def index : Topic → ℕ
  | debug => 0
  | attitude => 1
  | onboard => 2

/-- The message of a call for a queue. -/
def select {D : Type} (messages : DebugMessage × AttitudeMessage D × OnboardStateMessage) :
    (t : Topic) → t.Message D
  | debug => messages.1
  | attitude => messages.2.1
  | onboard => messages.2.2

end Topic

/-- A message, with the number of the call of `sendTelemetry` that it comes from. -/
structure Sent (D : Type) (t : Topic) where
  call : ℕ
  message : t.Message D

/-- The three messages that a round of the receiver combines. -/
structure Combined (D : Type) where
  debug : Sent D .debug
  attitude : Sent D .attitude
  onboard : Sent D .onboard

/-- The message of a round from a queue. -/
def Combined.get {D : Type} (r : Combined D) : (t : Topic) → Sent D t
  | .debug => r.debug
  | .attitude => r.attitude
  | .onboard => r.onboard

/-- The three messages come from one call. -/
def Combined.FromOneCall {D : Type} (r : Combined D) : Prop :=
  r.attitude.call = r.debug.call ∧ r.onboard.call = r.debug.call

instance {D : Type} (r : Combined D) : Decidable r.FromOneCall :=
  inferInstanceAs (Decidable (_ ∧ _))

/-! ## Sender and receiver -/

/-- The receiver's place in a round, with the messages it holds. -/
inductive ReceiverRound (D : Type)
  | debug
  | attitude (debugMessage : Sent D .debug)
  | onboard (debugMessage : Sent D .debug) (attitudeMessage : Sent D .attitude)

/-- The message that the receiver holds from a queue. -/
def ReceiverRound.held {D : Type} : ReceiverRound D → (t : Topic) → List (Sent D t)
  | .attitude m, .debug | .onboard m _, .debug => [m]
  | .onboard _ m, .attitude => [m]
  | _, _ => []

/-- The three queues, the sender's and the receiver's place, and the history of the run. -/
structure TelemetryQueues (D : Type) (mqSize : ℕ) where
  queue : (t : Topic) → BoundedQueue mqSize (Sent D t) := fun _ => BoundedQueue.empty
  /-- The number of the call under way. -/
  call : ℕ := 0
  /-- The queue that the call sends to next. -/
  next : Topic := .debug
  round : ReceiverRound D := .debug
  /-- History: the rounds completed. -/
  combined : List (Combined D) := []
  /-- History: what each queue accepted. -/
  accepted : (t : Topic) → List (Sent D t) := fun _ => []

/-- A step of the sender, or of the receiver. -/
inductive TelemetryAction
  | send
  | receive
deriving DecidableEq, Repr

namespace TelemetryQueues

variable {D : Type} {mqSize : ℕ}

/-- A message for a queue: accepted, or dropped if the queue is full. -/
def push (s : TelemetryQueues D mqSize) {t : Topic} (m : Sent D t) : TelemetryQueues D mqSize :=
  match (s.queue t).trySend m with
  | some q =>
    { s with
      queue := Function.update s.queue t q
      accepted := Function.update s.accepted t (s.accepted t ++ [m]) }
  | none => s

/-- The call goes on to the next queue, or is over. -/
def advance (s : TelemetryQueues D mqSize) : TelemetryQueues D mqSize :=
  match s.next with
  | .debug => { s with next := .attitude }
  | .attitude => { s with next := .onboard }
  | .onboard => { s with call := s.call + 1, next := .debug }

/-- The message that the sender sends next, where its `n`-th call sends the messages
`telemetry n`. -/
def nextMessage (telemetry : ℕ → DebugMessage × AttitudeMessage D × OnboardStateMessage)
    (s : TelemetryQueues D mqSize) : Sent D s.next :=
  ⟨s.call, Topic.select (telemetry s.call) s.next⟩

/-- The next `try_send` of the sender. Whether the message was accepted makes no difference to how
the call goes on. -/
def trySend (telemetry : ℕ → DebugMessage × AttitudeMessage D × OnboardStateMessage)
    (s : TelemetryQueues D mqSize) : TelemetryQueues D mqSize :=
  (s.push (s.nextMessage telemetry)).advance

/-- Take the oldest message of a queue. -/
def pop (s : TelemetryQueues D mqSize) (t : Topic) :
    Option (Sent D t × TelemetryQueues D mqSize) :=
  (s.queue t).receive.map fun (m, q) => (m, { s with queue := Function.update s.queue t q })

/-- The next `receive` of the receiver, which blocks while the queue is empty. -/
def receive (s : TelemetryQueues D mqSize) : Option (TelemetryQueues D mqSize) :=
  match s.round with
  | .debug => (s.pop .debug).map fun (m, s) => { s with round := .attitude m }
  | .attitude debugMessage =>
    (s.pop .attitude).map fun (m, s) => { s with round := .onboard debugMessage m }
  | .onboard debugMessage attitudeMessage =>
    (s.pop .onboard).map fun (m, s) =>
      { s with
        round := .debug
        combined := s.combined ++ [⟨debugMessage, attitudeMessage, m⟩] }

/-- A step of either side. -/
def step (telemetry : ℕ → DebugMessage × AttitudeMessage D × OnboardStateMessage)
    (s : TelemetryQueues D mqSize) : TelemetryAction → Option (TelemetryQueues D mqSize)
  | .send => some (s.trySend telemetry)
  | .receive => s.receive

/-- What the receiver has taken from a queue, in order. -/
def received (s : TelemetryQueues D mqSize) (t : Topic) : List (Sent D t) :=
  s.combined.map (·.get t) ++ s.round.held t

/-- In the run, the `try_send` of a call to a queue finds room in it. -/
def FindsRoom (telemetry : ℕ → DebugMessage × AttitudeMessage D × OnboardStateMessage)
    (mqSize : ℕ) (acts : List TelemetryAction) (t : Topic) (call : ℕ) : Prop :=
  ∃ before after s, acts = before ++ .send :: after ∧
    run (step telemetry) ({} : TelemetryQueues D mqSize) before = some s ∧
    s.call = call ∧ s.next = t ∧ (s.queue t).items.length < mqSize

/-- In the run, the call finds room in all three queues, or in none of them. -/
def AllOrNone (telemetry : ℕ → DebugMessage × AttitudeMessage D × OnboardStateMessage)
    (mqSize : ℕ) (acts : List TelemetryAction) (call : ℕ) : Prop :=
  ∀ t, FindsRoom telemetry mqSize acts t call ↔ FindsRoom telemetry mqSize acts .debug call

/-! ## What the steps do -/

/-- What a queue accepted is what was taken from it and what it holds. -/
def Conserved (s : TelemetryQueues D mqSize) : Prop :=
  ∀ t, s.accepted t = s.received t ++ (s.queue t).items

theorem push_eq (s : TelemetryQueues D mqSize) {t : Topic} (m : Sent D t) :
    s.push m = s ∨ ∃ q, q.items = (s.queue t).items ++ [m] ∧
      s.push m = { s with
        queue := Function.update s.queue t q
        accepted := Function.update s.accepted t (s.accepted t ++ [m]) } := by
  cases h : (s.queue t).trySend m with
  | none =>
    left
    rw [push, h]
  | some q =>
    right
    exact ⟨q, BoundedQueue.trySend_eq_some h, by rw [push, h]⟩

theorem Conserved.push {s : TelemetryQueues D mqSize} (h : s.Conserved) {t : Topic}
    (m : Sent D t) : (s.push m).Conserved := by
  rcases push_eq s m with hpush | ⟨q, hq, hpush⟩
  · rw [hpush]
    exact h
  · rw [hpush]
    -- only the queue that took the message has changed
    intro t'
    by_cases ht : t' = t
    · subst ht
      simp only [received, Function.update_self, hq]
      rw [h t', received, List.append_assoc, List.append_assoc]
    · simp only [received, Function.update_of_ne ht]
      exact h t'

@[simp] theorem accepted_advance (s : TelemetryQueues D mqSize) :
    s.advance.accepted = s.accepted := by
  unfold advance
  split <;> rfl

theorem Conserved.advance {s : TelemetryQueues D mqSize} (h : s.Conserved) :
    s.advance.Conserved := by
  unfold TelemetryQueues.advance
  split <;> exact h

theorem pop_eq_some {s s' : TelemetryQueues D mqSize} {t : Topic} {m : Sent D t}
    (h : s.pop t = some (m, s')) :
    ∃ q, (s.queue t).items = m :: q.items ∧
      s' = { s with queue := Function.update s.queue t q } := by
  obtain ⟨⟨m', q⟩, hreceive, heq⟩ := Option.map_eq_some_iff.mp h
  obtain ⟨rfl, rfl⟩ := Prod.mk.inj heq
  exact ⟨q, BoundedQueue.receive_eq_some hreceive, rfl⟩

/-- A step of the receiver takes the oldest message of one queue. -/
theorem receive_eq_some {s s' : TelemetryQueues D mqSize} (h : s.receive = some s') :
    s'.call = s.call ∧ s'.next = s.next ∧ s'.accepted = s.accepted ∧
      ∃ t m q, (s.queue t).items = m :: q.items ∧ s'.queue = Function.update s.queue t q ∧
        s'.received t = s.received t ++ [m] ∧ ∀ t' ≠ t, s'.received t' = s.received t' := by
  unfold receive at h
  split at h
  · next hround =>
    obtain ⟨⟨m, s₁⟩, hpop, rfl⟩ := Option.map_eq_some_iff.mp h
    obtain ⟨q, hq, rfl⟩ := pop_eq_some hpop
    refine ⟨rfl, rfl, rfl, .debug, m, q, hq, rfl, ?_, ?_⟩
    · simp [received, hround, ReceiverRound.held]
    · intro t' ht
      cases t' <;> simp [received, hround, ReceiverRound.held] at ht ⊢
  · next debugMessage hround =>
    obtain ⟨⟨m, s₁⟩, hpop, rfl⟩ := Option.map_eq_some_iff.mp h
    obtain ⟨q, hq, rfl⟩ := pop_eq_some hpop
    refine ⟨rfl, rfl, rfl, .attitude, m, q, hq, rfl, ?_, ?_⟩
    · simp [received, hround, ReceiverRound.held]
    · intro t' ht
      cases t' <;> simp [received, hround, ReceiverRound.held] at ht ⊢
  · next debugMessage attitudeMessage hround =>
    -- the round is over, and the messages held become part of it
    obtain ⟨⟨m, s₁⟩, hpop, rfl⟩ := Option.map_eq_some_iff.mp h
    obtain ⟨q, hq, rfl⟩ := pop_eq_some hpop
    refine ⟨rfl, rfl, rfl, .onboard, m, q, hq, rfl, ?_, ?_⟩
    · simp [received, hround, ReceiverRound.held, Combined.get]
    · intro t' ht
      cases t' <;> simp [received, hround, ReceiverRound.held, Combined.get] at ht ⊢

theorem Conserved.receive {s s' : TelemetryQueues D mqSize} (h : s.Conserved)
    (hstep : s.receive = some s') : s'.Conserved := by
  obtain ⟨-, -, haccepted, t, m, q, hitems, hqueue, hreceived, hothers⟩ := receive_eq_some hstep
  -- the message moves from the front of its queue to the end of what was received
  intro t'
  rw [haccepted, h t', hqueue]
  by_cases ht : t' = t
  · subst ht
    rw [Function.update_self, hreceived, hitems, List.append_assoc, List.singleton_append]
  · rw [Function.update_of_ne ht, hothers t' ht]

/-! ## The order of the calls -/

variable {telemetry : ℕ → DebugMessage × AttitudeMessage D × OnboardStateMessage}

/-- Every queue accepts messages in the order of the calls, and holds them in that order until
they are taken. -/
structure Ordered (telemetry : ℕ → DebugMessage × AttitudeMessage D × OnboardStateMessage)
    (s : TelemetryQueues D mqSize) : Prop where
  conserved : s.Conserved
  sorted : ∀ t, ((s.accepted t).map (·.call)).SortedLT
  /-- The call under way has sent to the queues before `next` only. -/
  recent : ∀ t, ∀ m ∈ s.accepted t,
    m.call < s.call ∨ m.call = s.call ∧ t.index < s.next.index
  message : ∀ t, ∀ m ∈ s.accepted t, m.message = Topic.select (telemetry m.call) t

theorem ordered_initial : Ordered telemetry ({} : TelemetryQueues D mqSize) where
  conserved t := by cases t <;> rfl
  sorted t := List.sortedLT_iff_pairwise.mpr List.Pairwise.nil
  recent t m hm := by cases hm
  message t m hm := by cases hm

/-- The place of the call under way, once it has gone on. -/
theorem place_advance (s : TelemetryQueues D mqSize) {call : ℕ} {t : Topic}
    (h : call < s.call ∨ call = s.call ∧ t.index ≤ s.next.index) :
    call < s.advance.call ∨ call = s.advance.call ∧ t.index < s.advance.next.index := by
  unfold advance
  split
  · next hnext =>
    simp only [hnext, Topic.index] at h ⊢
    omega
  · next hnext =>
    simp only [hnext, Topic.index] at h ⊢
    omega
  · -- the call is over, so every message so far is of an earlier call
    simp only
    omega

/-- The message sent next is the newest of its queue, whether or not it is accepted. -/
theorem Ordered.sorted_push {s : TelemetryQueues D mqSize} (h : Ordered telemetry s) (t : Topic) :
    (((s.push (s.nextMessage telemetry)).accepted t).map (·.call)).SortedLT := by
  rcases push_eq s (s.nextMessage telemetry) with hpush | ⟨q, -, hpush⟩
  · rw [hpush]
    exact h.sorted t
  · rw [hpush]
    by_cases ht : t = s.next
    · subst ht
      simp only [Function.update_self, List.map_append, List.map_singleton]
      rw [List.sortedLT_iff_pairwise, List.pairwise_append]
      refine ⟨List.sortedLT_iff_pairwise.mp (h.sorted s.next), List.pairwise_singleton _ _, ?_⟩
      -- a message of the same call would have gone to an earlier queue
      intro call hcall call' hcall'
      obtain ⟨m, hm, rfl⟩ := List.mem_map.mp hcall
      obtain rfl := List.mem_singleton.mp hcall'
      rcases h.recent s.next m hm with hlt | ⟨-, hlt⟩
      · exact hlt
      · exact absurd hlt (lt_irrefl _)
    · simp only [Function.update_of_ne ht]
      exact h.sorted t

/-- What is accepted was accepted before, or is the message sent next. -/
theorem mem_accepted_push {s : TelemetryQueues D mqSize} {t : Topic} {m : Sent D t}
    (hm : m ∈ (s.push (s.nextMessage telemetry)).accepted t) :
    m ∈ s.accepted t ∨
      t = s.next ∧ m.call = s.call ∧ m.message = Topic.select (telemetry m.call) t := by
  rcases push_eq s (s.nextMessage telemetry) with hpush | ⟨q, -, hpush⟩
  · rw [hpush] at hm
    exact Or.inl hm
  · rw [hpush] at hm
    by_cases ht : t = s.next
    · subst ht
      simp only [Function.update_self, List.mem_append, List.mem_singleton] at hm
      rcases hm with hm | rfl
      · exact Or.inl hm
      · exact Or.inr ⟨rfl, rfl, rfl⟩
    · simp only [Function.update_of_ne ht] at hm
      exact Or.inl hm

theorem Ordered.trySend {s : TelemetryQueues D mqSize} (h : Ordered telemetry s) :
    Ordered telemetry (s.trySend telemetry) := by
  have hplace : (s.push (s.nextMessage telemetry)).call = s.call ∧
      (s.push (s.nextMessage telemetry)).next = s.next := by
    rcases push_eq s (s.nextMessage telemetry) with hpush | ⟨q, -, hpush⟩ <;>
      rw [hpush] <;> exact ⟨rfl, rfl⟩
  unfold TelemetryQueues.trySend
  refine ⟨(h.conserved.push _).advance, ?_, ?_, ?_⟩
  · rw [accepted_advance]
    exact h.sorted_push
  · intro t m hm
    rw [accepted_advance] at hm
    apply place_advance
    rw [hplace.1, hplace.2]
    rcases mem_accepted_push hm with hm | ⟨rfl, hm, -⟩
    · rcases h.recent t m hm with hlt | ⟨heq, hlt⟩
      · exact Or.inl hlt
      · exact Or.inr ⟨heq, hlt.le⟩
    · exact Or.inr ⟨hm, le_rfl⟩
  · intro t m hm
    rw [accepted_advance] at hm
    rcases mem_accepted_push hm with hm | ⟨-, -, hm⟩
    · exact h.message t m hm
    · exact hm

theorem Ordered.receive {s s' : TelemetryQueues D mqSize} (h : Ordered telemetry s)
    (hstep : s.receive = some s') : Ordered telemetry s' := by
  -- the receiver leaves the sender's side alone
  obtain ⟨hcall, hnext, haccepted, -⟩ := receive_eq_some hstep
  refine ⟨h.conserved.receive hstep, ?_, ?_, ?_⟩
  · rw [haccepted]
    exact h.sorted
  · rw [haccepted, hcall, hnext]
    exact h.recent
  · rw [haccepted]
    exact h.message

/-- **The order of the calls.** In every interleaving each queue accepts messages in the order of
the calls, as they were sent, and they come out in that order. -/
theorem ordered_of_run {acts : List TelemetryAction} {s : TelemetryQueues D mqSize}
    (h : run (step telemetry) {} acts = some s) : Ordered telemetry s := by
  refine run_induction (P := Ordered telemetry) (A := fun _ => True) ordered_initial ?_
    (fun _ _ => trivial) h
  intro s a s' _ hs hstep
  cases a with
  | send =>
    obtain rfl := Option.some.inj hstep
    exact hs.trySend
  | receive => exact hs.receive hstep

/-! ## Consistent rounds -/

/-- The calls that the rounds took from a queue are the first that the queue accepted. -/
theorem Conserved.calls_accepted {s : TelemetryQueues D mqSize} (h : s.Conserved) (t : Topic) :
    ∃ rest, (s.accepted t).map (·.call) =
      s.combined.map (fun r => (r.get t).call) ++ rest := by
  refine ⟨(s.round.held t ++ (s.queue t).items).map (·.call), ?_⟩
  rw [h t, received, List.append_assoc, List.map_append, List.map_map]
  rfl

/-- The rounds are consistent exactly when they took the same calls from all queues. -/
theorem forall_fromOneCall_iff (rounds : List (Combined D)) :
    (∀ r ∈ rounds, r.FromOneCall) ↔
      ∀ t : Topic, rounds.map (fun r => r.debug.call) = rounds.map fun r => (r.get t).call := by
  simp only [List.map_inj_left]
  constructor
  · intro h t r hr
    cases t with
    | debug => rfl
    | attitude => exact (h r hr).1.symm
    | onboard => exact (h r hr).2.symm
  · intro h r hr
    exact ⟨(h .attitude r hr).symm, (h .onboard r hr).symm⟩

/-- The messages of a consistent round are those that its call sent. -/
theorem messages_of_fromOneCall {s : TelemetryQueues D mqSize} (h : Ordered telemetry s)
    {r : Combined D} (hr : r ∈ s.combined) (hcall : r.FromOneCall) :
    (r.debug.message, r.attitude.message, r.onboard.message) = telemetry r.debug.call := by
  have hmessage : ∀ t, (r.get t).message = Topic.select (telemetry (r.get t).call) t := by
    intro t
    -- what a round took from a queue, the queue had accepted
    apply h.message t
    rw [h.conserved t, received]
    exact List.mem_append_left _ (List.mem_append_left _ (List.mem_map_of_mem hr))
  have hdebug : r.debug.message = (telemetry r.debug.call).1 := hmessage .debug
  have hattitude : r.attitude.message = (telemetry r.attitude.call).2.1 := hmessage .attitude
  have honboard : r.onboard.message = (telemetry r.onboard.call).2.2 := hmessage .onboard
  rw [hdebug, hattitude, honboard, hcall.1, hcall.2]
  rfl

/-- A step of the sender is accepted exactly when its queue has room. -/
theorem mem_accepted_trySend {s : TelemetryQueues D mqSize} {t : Topic} {call : ℕ} :
    call ∈ ((s.trySend telemetry).accepted t).map (·.call) ↔
      call ∈ (s.accepted t).map (·.call) ∨
        s.call = call ∧ s.next = t ∧ (s.queue t).items.length < mqSize := by
  rw [trySend, accepted_advance]
  by_cases hroom : (s.queue s.next).items.length < mqSize
  · obtain ⟨q, hq⟩ := BoundedQueue.trySend_of_lt (a := s.nextMessage telemetry) hroom
    rw [push, hq]
    by_cases ht : t = s.next
    · subst ht
      simp only [Function.update_self, List.map_append, List.map_singleton, List.mem_append,
        List.mem_singleton, hroom, and_true]
      exact or_congr_right eq_comm
    · simp only [Function.update_of_ne ht]
      refine ⟨Or.inl, fun h => h.elim id fun h => absurd h.2.1.symm ht⟩
  · -- a full queue drops the message
    rw [push, BoundedQueue.trySend_of_not_lt hroom]
    refine ⟨Or.inl, fun h => h.elim id ?_⟩
    rintro ⟨-, rfl, h⟩
    exact absurd h hroom

theorem findsRoom_snoc_receive {acts : List TelemetryAction} {t : Topic} {call : ℕ} :
    FindsRoom telemetry mqSize (acts ++ [.receive]) t call ↔
      FindsRoom telemetry mqSize acts t call := by
  constructor
  · rintro ⟨before, after, s, hacts, h⟩
    rcases snoc_eq_append_cons hacts with ⟨-, hne, -⟩ | ⟨after', -, rfl⟩
    · cases hne
    · exact ⟨before, after', s, rfl, h⟩
  · rintro ⟨before, after, s, rfl, h⟩
    exact ⟨before, after ++ [.receive], s, by rw [List.append_assoc, List.cons_append], h⟩

theorem findsRoom_snoc_send {acts : List TelemetryAction} {s : TelemetryQueues D mqSize}
    (hrun : run (step telemetry) {} acts = some s) {t : Topic} {call : ℕ} :
    FindsRoom telemetry mqSize (acts ++ [.send]) t call ↔
      FindsRoom telemetry mqSize acts t call ∨
        s.call = call ∧ s.next = t ∧ (s.queue t).items.length < mqSize := by
  constructor
  · rintro ⟨before, after, s', hacts, hrun', h⟩
    rcases snoc_eq_append_cons hacts with ⟨rfl, -, -⟩ | ⟨after', -, rfl⟩
    · -- it is the last step that finds room
      obtain rfl := Option.some.inj (hrun.symm.trans hrun')
      exact Or.inr h
    · exact Or.inl ⟨before, after', s', rfl, hrun', h⟩
  · rintro (⟨before, after, s', rfl, h⟩ | h)
    · exact ⟨before, after ++ [.send], s', by rw [List.append_assoc, List.cons_append], h⟩
    · exact ⟨acts, [], s, rfl, hrun, h⟩

/-- A queue accepts the messages of the calls that find room in it. -/
theorem mem_accepted_iff {acts : List TelemetryAction} {s : TelemetryQueues D mqSize}
    (h : run (step telemetry) {} acts = some s) (t : Topic) (call : ℕ) :
    call ∈ (s.accepted t).map (·.call) ↔ FindsRoom telemetry mqSize acts t call := by
  induction acts using List.reverseRecOn generalizing s with
  | nil =>
    obtain rfl := Option.some.inj h
    constructor
    · intro hmem
      cases hmem
    · rintro ⟨before, after, s, hacts, -⟩
      exact absurd hacts.symm (by simp)
  | append_singleton acts a ih =>
    rw [run_append] at h
    obtain ⟨s₁, hrun, hstep⟩ := Option.bind_eq_some_iff.mp h
    rw [run_cons, Option.bind_eq_some_iff] at hstep
    obtain ⟨s₂, hstep, hnil⟩ := hstep
    obtain rfl := Option.some.inj hnil
    cases a with
    | send =>
      obtain rfl := Option.some.inj hstep
      rw [mem_accepted_trySend, findsRoom_snoc_send hrun, ih hrun]
    | receive =>
      obtain ⟨-, -, haccepted, -⟩ := receive_eq_some hstep
      rw [haccepted, findsRoom_snoc_receive, ih hrun]

/-- **Consistent rounds.** In every interleaving the three messages of every completed round come
from one call exactly when each call up to that of the last round's debug message finds room in
all three queues or in none. -/
theorem consistent_iff_allOrNone {acts : List TelemetryAction} {s : TelemetryQueues D mqSize}
    (h : run (step telemetry) {} acts = some s) :
    (∀ r ∈ s.combined, r.FromOneCall) ↔
      ∀ last ∈ s.combined.getLast?, ∀ call ≤ last.debug.call,
        AllOrNone telemetry mqSize acts call := by
  have hs := ordered_of_run h
  rw [forall_fromOneCall_iff]
  simp only [AllOrNone, ← mem_accepted_iff h]
  rcases List.eq_nil_or_concat' s.combined with hnil | ⟨rounds, last, hrounds⟩
  · simp [hnil]
  · obtain ⟨rest, hdebug⟩ := hs.conserved.calls_accepted .debug
    have hsplit : s.combined.map (fun r => r.debug.call) =
        rounds.map (fun r => r.debug.call) ++ [last.debug.call] := by
      rw [hrounds, List.map_append, List.map_singleton]
    have hdebug' : (s.accepted .debug).map (·.call) =
        rounds.map (fun r => r.debug.call) ++ [last.debug.call] ++ rest := by
      rw [hdebug, ← hsplit]
      rfl
    -- queue by queue: the rounds' calls are a common prefix of what the two queues accepted
    have hqueue : ∀ t : Topic,
        s.combined.map (fun r => r.debug.call) = s.combined.map (fun r => (r.get t).call) ↔
          ∀ call ≤ last.debug.call,
            call ∈ (s.accepted .debug).map (·.call) ↔ call ∈ (s.accepted t).map (·.call) := by
      intro t
      obtain ⟨rest', ht⟩ := hs.conserved.calls_accepted t
      have hsorted := hs.sorted .debug
      have hsorted' := hs.sorted t
      rw [hdebug'] at hsorted ⊢
      rw [ht] at hsorted' ⊢
      rw [hsplit]
      refine prefix_eq_iff_mem_iff hsorted hsorted' ?_
      rw [← hsplit, List.length_map, List.length_map]
    have hlast : s.combined.getLast? = some last := by
      rw [hrounds, List.getLast?_concat]
    simp only [hqueue, hlast, Option.mem_def, Option.some_inj, forall_eq']
    exact ⟨fun h call hcall t => (h t call hcall).symm,
      fun h t call hcall => (h call hcall t).symm⟩

section Runs

/-- With queues of one message: the queues are full when the second call is made, and all of its
messages are dropped; a round follows, and another one that takes the messages of the third call. -/
def wholeDrop : List TelemetryAction :=
  [.send, .send, .send, .send, .send, .send, .receive, .receive, .receive, .send, .send, .send,
    .receive, .receive, .receive]

/-- With queues of one message: a round is under way when the second call finds room for its debug
message only, and the third call finds room for all of its messages. -/
def partialDrop : List TelemetryAction :=
  [.send, .send, .send, .receive, .send, .send, .send, .receive, .receive, .receive, .send, .send,
    .send, .receive, .receive]

/-- Two rounds, of the first and the third call: the second call finds room nowhere. -/
theorem consistent_whole_drop :
    ∃ s, run (step fun n =>
          (({ mainLoopCounter := .ofNat n }, ⟨0, 0, 0, 0⟩, {}) :
            DebugMessage × AttitudeMessage ℚ × _))
        ({} : TelemetryQueues ℚ 1) wholeDrop = some s ∧
      s.combined.map (fun r => r.debug.call) = [0, 2] ∧ (∀ r ∈ s.combined, r.FromOneCall) ∧
      ∀ last ∈ s.combined.getLast?, ∀ call ≤ last.debug.call,
        AllOrNone (fun n => (({ mainLoopCounter := .ofNat n }, ⟨0, 0, 0, 0⟩, {}) :
          DebugMessage × AttitudeMessage ℚ × _)) 1 wholeDrop call := by
  have hrun : run (step fun n =>
      (({ mainLoopCounter := .ofNat n }, ⟨0, 0, 0, 0⟩, {}) : DebugMessage × AttitudeMessage ℚ × _))
      ({} : TelemetryQueues ℚ 1) wholeDrop = some _ := rfl
  refine ⟨_, hrun, rfl, ?_, (consistent_iff_allOrNone hrun).mp ?_⟩
  · decide +kernel
  · decide +kernel

/-- The second round combines the debug message of the second call with the other messages of the
third. -/
theorem inconsistent_partial_drop :
    ¬ ∀ acts s, run (step fun _ => (({}, ⟨0, 0, 0, 0⟩, {}) : DebugMessage × AttitudeMessage ℚ × _))
        ({} : TelemetryQueues ℚ 1) acts = some s → ∀ r ∈ s.combined, r.FromOneCall := by
  intro h
  have hall := h partialDrop _ rfl
  revert hall
  decide +kernel

end Runs

end TelemetryQueues

end RcPlane
