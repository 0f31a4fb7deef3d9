import RcPlane.Foundation.NamedObjects
import RcPlane.Foundation.Network
import RcPlane.Telemetry.MessageQueues

/-!
# The queues across restarts

The telemetry queues are named objects of the operating system, of which `NamedObjects.Lawful` is
assumed. `TelemetryTransmitterMQ::init` opens or creates the three queues one after the other, and
the destructor removes the three names; a process that does not get that far leaves them.
`TelemetryReceiverMQ::init` opens queues that there are. SoM processes come one after the other,
each with its own `mq_size`, and end in one way or the other; receivers come and go meanwhile, one
at a time.

## Main definitions

* `Posted`, `Mailbox`: a message with the process that sent it, and a queue with its history
* `QueueRegistry`: the queues with the transmitter and the receiver that use them
* `RegistryAction`, `QueueRegistry.step`: what can happen
* `QueueRegistry.Change`: what a step can do
* `QueueRegistry.Kept`: what is kept

## Main results

* `QueueRegistry.kept_of_run`: every run keeps it
* `QueueRegistry.received_of_run`: what a receiver gets, and from which processes
-/

namespace RcPlane

open Foundation Function

/-- The next queue to be opened or removed. -/
def Topic.next : Topic → Option Topic
  | debug => some attitude
  | attitude => some onboard
  | onboard => none

/-! ## A queue -/

/-- A message, with the number of the SoM process that sent it. -/
structure Posted (α : Type) where
  process : ℕ
  message : α

/-- A queue, with the number of the process that created it, and its history. -/
structure Mailbox (α : Type) where
  capacity : ℕ
  creator : ℕ
  queue : BoundedQueue capacity (Posted α) := .empty
  /-- History: every message that the queue has accepted. -/
  accepted : List (Posted α) := []
  /-- History: every message that was taken out. -/
  taken : List (Posted α) := []

namespace Mailbox

variable {α : Type}

/-- `try_send`: a full queue refuses the message. -/
def trySend (b : Mailbox α) (m : Posted α) : Mailbox α :=
  match b.queue.trySend m with
  | some queue => { b with queue := queue, accepted := b.accepted ++ [m] }
  | none => b

/-- `receive`, when there is a message. -/
def receive (b : Mailbox α) : Option (Posted α × Mailbox α) :=
  b.queue.receive.map fun r => (r.1, { b with queue := r.2, taken := b.taken ++ [r.1] })

end Mailbox

/-! ## The transmitter and the receiver -/

/-- Where the transmitter of the SoM process stands: there is no process, or `init` is about to open
a queue, or the queues are in use, or the destructor is about to remove a name. -/
inductive Transmitter
  | absent
  | opening (t : Topic)
  | running
  | removing (t : Topic)
deriving DecidableEq, Repr

/-- Where the receiver stands. -/
inductive Receiver
  | absent
  | opening (t : Topic)
  | attached
deriving DecidableEq, Repr

/-- The queues and their users. SoM processes are numbered from one. -/
structure QueueRegistry {α : Type} (os : NamedObjects Topic (Mailbox α)) where
  store : os.State := os.empty
  /-- The number of SoM processes so far, which is the number of the current one. -/
  process : ℕ := 0
  transmitter : Transmitter := .absent
  /-- The queues that the transmitter has opened. -/
  sending : Topic → ℕ := fun _ => 0
  receiver : Receiver := .absent
  /-- The queues that the receiver has opened. -/
  receiving : Topic → ℕ := fun _ => 0
  /-- History: the number of the process at the time the receiver opened a queue. -/
  opened : Topic → ℕ := fun _ => 0
  /-- History: what the receiver has taken out of a queue. -/
  received : Topic → List (Posted α) := fun _ => []
  /-- History: the names removed, each with the process that removed it. -/
  removed : List (ℕ × Topic) := []

/-- What can happen. A process dies when it is killed, or through `exit(1)` of an assertion, that on
`init` included. -/
inductive RegistryAction (α : Type)
  | start
  | openOrCreate
  | send (t : Topic) (message : α)
  | destroy
  | remove
  | die
  | attach
  | openOnly
  | receive (t : Topic)
  | detach

namespace QueueRegistry

variable {α : Type} {os : NamedObjects Topic (Mailbox α)}

/-! ### The transmitter -/

/-- A SoM process constructs its transmitter. -/
def start (s : QueueRegistry os) : Option (QueueRegistry os) :=
  match s.transmitter with
  | .absent => some { s with process := s.process + 1, transmitter := .opening .debug }
  | _ => none

/-- `init` opens or creates the next queue. -/
def openOrCreate (mqSize : ℕ → ℕ) (s : QueueRegistry os) : Option (QueueRegistry os) :=
  match s.transmitter with
  | .opening t =>
    let r := os.openOrCreate s.store t { capacity := mqSize s.process, creator := s.process }
    some { s with
      store := r.2
      sending := update s.sending t r.1
      transmitter := (t.next.map Transmitter.opening).getD .running }
  | _ => none

/-- A message is sent. -/
def send (s : QueueRegistry os) (t : Topic) (message : α) : Option (QueueRegistry os) :=
  match s.transmitter with
  | .running =>
    some { s with
      store := os.modify s.store (s.sending t) fun b => b.trySend ⟨s.process, message⟩ }
  | _ => none

/-- The destructor begins. -/
def destroy (s : QueueRegistry os) : Option (QueueRegistry os) :=
  match s.transmitter with
  | .running => some { s with transmitter := .removing .debug }
  | _ => none

/-- The destructor removes the next name. -/
def remove (s : QueueRegistry os) : Option (QueueRegistry os) :=
  match s.transmitter with
  | .removing t =>
    some { s with
      store := os.remove s.store t
      removed := s.removed ++ [(s.process, t)]
      transmitter := (t.next.map Transmitter.removing).getD .absent }
  | _ => none

/-- The process ends as it stands. -/
def die (s : QueueRegistry os) : Option (QueueRegistry os) :=
  match s.transmitter with
  | .absent => none
  | _ => some { s with transmitter := .absent }

/-! ### The receiver -/

/-- A receiver is constructed. -/
def attach (s : QueueRegistry os) : Option (QueueRegistry os) :=
  match s.receiver with
  | .absent => some { s with receiver := .opening .debug }
  | _ => none

/-- `init` opens the next queue, or fails when there is none of its name. -/
def openOnly (s : QueueRegistry os) : Option (QueueRegistry os) :=
  match s.receiver with
  | .opening t =>
    match os.names s.store t with
    | some o =>
      some { s with
        receiving := update s.receiving t o
        opened := update s.opened t s.process
        received := update s.received t []
        receiver := (t.next.map Receiver.opening).getD .attached }
    | none => some { s with receiver := .absent }
  | _ => none

/-- A message is received, when there is one. -/
def receive (s : QueueRegistry os) (t : Topic) : Option (QueueRegistry os) :=
  match s.receiver, os.object s.store (s.receiving t) with
  | .attached, some (_, b) =>
    b.receive.map fun r =>
      { s with
        store := os.modify s.store (s.receiving t) fun _ => r.2
        received := update s.received t (s.received t ++ [r.1]) }
  | _, _ => none

/-- The receiver ends. -/
def detach (s : QueueRegistry os) : Option (QueueRegistry os) :=
  match s.receiver with
  | .absent => none
  | _ => some { s with receiver := .absent }

/-- The effect of an action, if it can be taken; `mqSize k` is what the configuration of the `k`-th
process says. -/
def step (mqSize : ℕ → ℕ) (s : QueueRegistry os) : RegistryAction α → Option (QueueRegistry os)
  | .start => s.start
  | .openOrCreate => s.openOrCreate mqSize
  | .send t message => s.send t message
  | .destroy => s.destroy
  | .remove => s.remove
  | .die => s.die
  | .attach => s.attach
  | .openOnly => s.openOnly
  | .receive t => s.receive t
  | .detach => s.detach

/-! ### What a step can do -/

/-- The changes that an action can make. -/
inductive Change (mqSize : ℕ → ℕ) (s : QueueRegistry os) :
    RegistryAction α → QueueRegistry os → Prop
  | started (transmitter : s.transmitter = .absent) :
      Change mqSize s .start { s with process := s.process + 1, transmitter := .opening .debug }
  | opened {t : Topic} {r : ℕ × os.State} (transmitter : s.transmitter = .opening t)
      (open_eq : os.openOrCreate s.store t
        { capacity := mqSize s.process, creator := s.process } = r) :
      Change mqSize s .openOrCreate { s with
        store := r.2
        sending := update s.sending t r.1
        transmitter := (t.next.map Transmitter.opening).getD .running }
  | sent {t : Topic} {message : α} (transmitter : s.transmitter = .running) :
      Change mqSize s (.send t message) { s with
        store := os.modify s.store (s.sending t) fun b => b.trySend ⟨s.process, message⟩ }
  | destroyed (transmitter : s.transmitter = .running) :
      Change mqSize s .destroy { s with transmitter := .removing .debug }
  | removed {t : Topic} (transmitter : s.transmitter = .removing t) :
      Change mqSize s .remove { s with
        store := os.remove s.store t
        removed := s.removed ++ [(s.process, t)]
        transmitter := (t.next.map Transmitter.removing).getD .absent }
  | died (transmitter : s.transmitter ≠ .absent) :
      Change mqSize s .die { s with transmitter := .absent }
  | attached (receiver : s.receiver = .absent) :
      Change mqSize s .attach { s with receiver := .opening .debug }
  | openedOnly {t : Topic} {o : ℕ} (receiver : s.receiver = .opening t)
      (names : os.names s.store t = some o) :
      Change mqSize s .openOnly { s with
        receiving := update s.receiving t o
        opened := update s.opened t s.process
        received := update s.received t []
        receiver := (t.next.map Receiver.opening).getD .attached }
  | failed {t : Topic} (receiver : s.receiver = .opening t) (names : os.names s.store t = none) :
      Change mqSize s .openOnly { s with receiver := .absent }
  | received {t t' : Topic} {b b' : Mailbox α} {m : Posted α} (receiver : s.receiver = .attached)
      (object : os.object s.store (s.receiving t) = some (t', b))
      (receive : b.receive = some (m, b')) :
      Change mqSize s (.receive t) { s with
        store := os.modify s.store (s.receiving t) fun _ => b'
        received := update s.received t (s.received t ++ [m]) }
  | detached (receiver : s.receiver ≠ .absent) :
      Change mqSize s .detach { s with receiver := .absent }

theorem change_of_step {mqSize : ℕ → ℕ} {s s' : QueueRegistry os} {a : RegistryAction α}
    (h : step mqSize s a = some s') : Change mqSize s a s' := by
  cases a with
  | start =>
    simp only [step, start] at h
    split at h
    · next htransmitter => exact Option.some.inj h ▸ .started htransmitter
    · cases h
  | openOrCreate =>
    simp only [step, openOrCreate] at h
    split at h
    · next htransmitter => exact Option.some.inj h ▸ .opened htransmitter rfl
    · cases h
  | send t message =>
    simp only [step, send] at h
    split at h
    · next htransmitter => exact Option.some.inj h ▸ .sent htransmitter
    · cases h
  | destroy =>
    simp only [step, destroy] at h
    split at h
    · next htransmitter => exact Option.some.inj h ▸ .destroyed htransmitter
    · cases h
  | remove =>
    simp only [step, remove] at h
    split at h
    · next htransmitter => exact Option.some.inj h ▸ .removed htransmitter
    · cases h
  | die =>
    simp only [step, die] at h
    split at h
    · cases h
    · next htransmitter => exact Option.some.inj h ▸ .died htransmitter
  | attach =>
    simp only [step, attach] at h
    split at h
    · next hreceiver => exact Option.some.inj h ▸ .attached hreceiver
    · cases h
  | openOnly =>
    simp only [step, openOnly] at h
    split at h
    · next hreceiver =>
      split at h
      · next hnames => exact Option.some.inj h ▸ .openedOnly hreceiver hnames
      · next hnames => exact Option.some.inj h ▸ .failed hreceiver hnames
    · cases h
  | receive t =>
    simp only [step, receive] at h
    split at h
    · next hreceiver hobject =>
      obtain ⟨r, hreceive, rfl⟩ := Option.map_eq_some_iff.mp h
      exact .received hreceiver hobject hreceive
    · cases h
  | detach =>
    simp only [step, detach] at h
    split at h
    · cases h
    · next hreceiver => exact Option.some.inj h ▸ .detached hreceiver

end QueueRegistry

/-! ## What is kept -/

namespace Mailbox

variable {α : Type} {b b' : Mailbox α}

/-- What is kept of the queue of a topic: it comes from one process, holds what it has accepted and
not given out, and has accepted nothing from a process that was started after one that removed its
name. -/
structure Kept (mqSize : ℕ → ℕ) (process : ℕ) (removed : List (ℕ × Topic)) (t : Topic)
    (b : Mailbox α) : Prop where
  capacity : b.capacity = mqSize b.creator
  creator : b.creator ≤ process
  conserved : b.taken ++ b.queue.items = b.accepted
  ordered : (b.accepted.map Posted.process).Pairwise (· ≤ ·)
  posted : ∀ m ∈ b.accepted, b.creator ≤ m.process ∧ m.process ≤ process
  unremoved : ∀ m ∈ b.accepted, ∀ k, b.creator ≤ k → k < m.process → (k, t) ∉ removed

variable {mqSize : ℕ → ℕ} {process : ℕ} {removed : List (ℕ × Topic)} {t : Topic}

theorem Kept.start (h : b.Kept mqSize process removed t) :
    b.Kept mqSize (process + 1) removed t where
  capacity := h.capacity
  creator := h.creator.trans (Nat.le_succ _)
  conserved := h.conserved
  ordered := h.ordered
  posted m hm := ⟨(h.posted m hm).1, (h.posted m hm).2.trans (Nat.le_succ _)⟩
  unremoved := h.unremoved

/-- The current process removes a name. -/
theorem Kept.remove (h : b.Kept mqSize process removed t) (t' : Topic) :
    b.Kept mqSize process (removed ++ [(process, t')]) t where
  capacity := h.capacity
  creator := h.creator
  conserved := h.conserved
  ordered := h.ordered
  posted := h.posted
  unremoved m hm k hle hlt hmem := by
    rcases List.mem_append.mp hmem with hmem | hmem
    · exact h.unremoved m hm k hle hlt hmem
    · obtain ⟨rfl, -⟩ := Prod.mk.inj (List.mem_singleton.mp hmem)
      exact absurd (h.posted m hm).2 (not_le.mpr hlt)

theorem creator_trySend (b : Mailbox α) (m : Posted α) : (b.trySend m).creator = b.creator := by
  unfold trySend
  split <;> rfl

theorem taken_trySend (b : Mailbox α) (m : Posted α) : (b.trySend m).taken = b.taken := by
  unfold trySend
  split <;> rfl

/-- The current process sends a message to a queue that has its name. -/
theorem Kept.trySend (h : b.Kept mqSize process removed t)
    (hnamed : ∀ k, b.creator ≤ k → (k, t) ∉ removed) (message : α) :
    (b.trySend ⟨process, message⟩).Kept mqSize process removed t := by
  unfold Mailbox.trySend
  split
  · next queue hqueue =>
    have hitems := BoundedQueue.trySend_eq_some hqueue
    exact {
      capacity := h.capacity
      creator := h.creator
      conserved := by
        show b.taken ++ queue.items = _
        rw [hitems, ← List.append_assoc, h.conserved]
      ordered := by
        rw [List.map_append, List.pairwise_append]
        refine ⟨h.ordered, List.pairwise_singleton _ _, ?_⟩
        intro k hk l hl
        obtain ⟨m, hm, rfl⟩ := List.mem_map.mp hk
        obtain rfl := List.mem_singleton.mp hl
        exact (h.posted m hm).2
      posted := by
        intro m hm
        rcases List.mem_append.mp hm with hm | hm
        · exact h.posted m hm
        · obtain rfl := List.mem_singleton.mp hm
          exact ⟨h.creator, le_rfl⟩
      unremoved := by
        intro m hm k hle hlt
        exact hnamed k hle }
  · exact h

theorem receive_eq_some {m : Posted α} (h : b.receive = some (m, b')) :
    b'.creator = b.creator ∧ b'.capacity = b.capacity ∧ b'.accepted = b.accepted ∧
      b'.taken = b.taken ++ [m] ∧ b.queue.items = m :: b'.queue.items := by
  obtain ⟨⟨m', queue⟩, hqueue, heq⟩ := Option.map_eq_some_iff.mp h
  obtain ⟨rfl, rfl⟩ := Prod.mk.inj heq
  exact ⟨rfl, rfl, rfl, rfl, BoundedQueue.receive_eq_some hqueue⟩

theorem Kept.receive (h : b.Kept mqSize process removed t) {m : Posted α}
    (hreceive : b.receive = some (m, b')) : b'.Kept mqSize process removed t := by
  obtain ⟨hcreator, hcapacity, haccepted, htaken, hitems⟩ := receive_eq_some hreceive
  exact {
    capacity := by rw [hcapacity, hcreator, h.capacity]
    creator := by rw [hcreator]; exact h.creator
    conserved := by
      rw [htaken, haccepted, ← h.conserved, hitems, List.append_assoc, List.singleton_append]
    ordered := by rw [haccepted]; exact h.ordered
    posted := by rw [haccepted, hcreator]; exact h.posted
    unremoved := by rw [haccepted, hcreator]; exact h.unremoved }

end Mailbox

/-- The transmitter has opened the queue of a topic and has not removed its name. -/
def Transmitter.Holds : Transmitter → Topic → Prop
  | absent, _ => False
  | opening t, t' => t'.index < t.index
  | running, _ => True
  | removing t, t' => t.index ≤ t'.index

/-- The process has not removed the name of a topic, and may do so. -/
def Transmitter.Keeps : Transmitter → Topic → Prop
  | absent, _ => False
  | opening _, _ => True
  | running, _ => True
  | removing t, t' => t.index ≤ t'.index

/-- The receiver has opened the queue of a topic. -/
def Receiver.Holds : Receiver → Topic → Prop
  | absent, _ => False
  | opening t, t' => t'.index < t.index
  | attached, _ => True

theorem Transmitter.holds_of_opened {t t' : Topic}
    (h : ((t.next.map opening).getD running).Holds t') : t' = t ∨ (opening t).Holds t' := by
  cases t <;> cases t' <;> simp_all [Topic.next, Holds, Topic.index]

theorem Transmitter.holds_of_removed {t t' : Topic}
    (h : ((t.next.map removing).getD absent).Holds t') : t' ≠ t ∧ (removing t).Holds t' := by
  cases t <;> cases t' <;> simp_all [Topic.next, Holds, Topic.index]

theorem Transmitter.keeps_opened {t t' : Topic} :
    ((t.next.map opening).getD running).Keeps t' := by
  cases t <;> trivial

theorem Transmitter.keeps_removed_iff {t t' : Topic} :
    ((t.next.map removing).getD absent).Keeps t' ↔ t' ≠ t ∧ (removing t).Keeps t' := by
  cases t <;> cases t' <;> simp [Topic.next, Keeps, Topic.index]

theorem Receiver.holds_of_opened {t t' : Topic}
    (h : ((t.next.map opening).getD attached).Holds t') : t' = t ∨ (opening t).Holds t' := by
  cases t <;> cases t' <;> simp_all [Topic.next, Holds, Topic.index]

namespace QueueRegistry

variable {α : Type} {os : NamedObjects Topic (Mailbox α)} {mqSize : ℕ → ℕ}
  {s s' : QueueRegistry os}

/-- What is kept of the receiver and a queue that it has opened. -/
structure Receives (s : QueueRegistry os) (t : Topic) (b : Mailbox α) : Prop where
  object : os.object s.store (s.receiving t) = some (t, b)
  creator : b.creator ≤ s.opened t
  opened : s.opened t ≤ s.process
  /-- The queue still has its name, or a process has removed it since. -/
  named : os.names s.store t = some (s.receiving t) ∨ ∃ k, s.opened t ≤ k ∧ (k, t) ∈ s.removed
  taken : ∃ before, b.taken = before ++ s.received t

/-- What is kept of the queues and their users. -/
structure Kept (mqSize : ℕ → ℕ) (s : QueueRegistry os) : Prop where
  sound : os.Sound s.store
  past : ∀ k t, (k, t) ∈ s.removed → k ≤ s.process
  current : ∀ t, s.transmitter.Keeps t → (s.process, t) ∉ s.removed
  /-- A queue that has its name has kept it since it was created. -/
  named : ∀ t o b, os.names s.store t = some o → os.object s.store o = some (t, b) →
    ∀ k, b.creator ≤ k → (k, t) ∉ s.removed
  mailbox : ∀ o t b, os.object s.store o = some (t, b) → b.Kept mqSize s.process s.removed t
  sends : ∀ t, s.transmitter.Holds t → os.names s.store t = some (s.sending t)
  receives : ∀ t, s.receiver.Holds t → ∃ b, s.Receives t b

theorem kept_empty (hos : os.Lawful) : Kept mqSize ({} : QueueRegistry os) where
  sound := hos.sound_empty
  past _ _ h := by cases h
  current _ h := h.elim
  named t o b h := by
    rw [show os.names _ t = none from hos.names_empty t] at h
    cases h
  mailbox o t b h := by
    rw [show os.object _ o = none from hos.object_empty o] at h
    cases h
  sends _ h := h.elim
  receives _ h := h.elim

/-! ### The steps of the transmitter -/

/-- A process is started. -/
theorem Kept.start (h : s.Kept mqSize) :
    Kept mqSize { s with process := s.process + 1, transmitter := .opening .debug } where
  sound := h.sound
  past k t hmem := (h.past k t hmem).trans (Nat.le_succ _)
  current t _ hmem := absurd (h.past _ t hmem) (Nat.not_succ_le_self _)
  named := h.named
  mailbox o t b ho := (h.mailbox o t b ho).start
  sends t ht := absurd ht (Nat.not_lt_zero _)
  receives t ht := by
    obtain ⟨b, hb⟩ := h.receives t ht
    exact ⟨b, hb.object, hb.creator, hb.opened.trans (Nat.le_succ _), hb.named, hb.taken⟩

/-- The transmitter creates a queue whose name is free. -/
theorem Kept.create (h : s.Kept mqSize) {t : Topic} (hfree : os.names s.store t = none)
    (hcurrent : (s.process, t) ∉ s.removed) {r : ℕ × os.State}
    (hr : os.Created s.store t { capacity := mqSize s.process, creator := s.process } r) :
    Kept mqSize { s with store := r.2 } where
  sound := hr.sound h.sound
  past := h.past
  current := h.current
  named t' o b hnames hobject k hk := by
    by_cases hne : t' = t
    · subst hne
      rw [hr.names_self] at hnames
      obtain rfl := Option.some.inj hnames
      rw [hr.object_self] at hobject
      obtain rfl := (Prod.mk.inj (Option.some.inj hobject)).2
      -- a later process has removed nothing yet
      intro hmem
      obtain rfl := le_antisymm (h.past k t' hmem) hk
      exact hcurrent hmem
    · rw [hr.names_of_ne hne] at hnames
      obtain ⟨b', hb'⟩ := h.sound t' o hnames
      rw [hr.object_of_ne (hr.ne hb')] at hobject
      exact h.named t' o b hnames hobject k hk
  mailbox o t' b hobject := by
    by_cases hne : o = r.1
    · subst hne
      rw [hr.object_self] at hobject
      obtain ⟨rfl, rfl⟩ := Prod.mk.inj (Option.some.inj hobject)
      exact {
        capacity := rfl
        creator := le_rfl
        conserved := rfl
        ordered := List.Pairwise.nil
        posted := fun m hm => by cases hm
        unremoved := fun m hm => by cases hm }
    · rw [hr.object_of_ne hne] at hobject
      exact h.mailbox o t' b hobject
  sends t' ht' := by
    have hnames := h.sends t' ht'
    have hne : t' ≠ t := by
      rintro rfl
      rw [hfree] at hnames
      cases hnames
    rw [hr.names_of_ne hne]
    exact hnames
  receives t' ht' := by
    obtain ⟨b, hb⟩ := h.receives t' ht'
    refine ⟨b, ?_, hb.creator, hb.opened, ?_, hb.taken⟩
    · rw [hr.object_of_ne (hr.ne hb.object)]
      exact hb.object
    · refine hb.named.imp_left fun hnames => ?_
      have hne : t' ≠ t := by
        rintro rfl
        rw [hfree] at hnames
        cases hnames
      rw [hr.names_of_ne hne]
      exact hnames

/-- The transmitter has opened a queue, and goes on to the next. -/
theorem Kept.opened (h : s.Kept mqSize) {t : Topic} {o : ℕ}
    (htransmitter : s.transmitter = .opening t) (hnames : os.names s.store t = some o) :
    Kept mqSize { s with
      sending := update s.sending t o
      transmitter := (t.next.map Transmitter.opening).getD .running } where
  sound := h.sound
  past := h.past
  current t' _ := h.current t' (by rw [htransmitter]; trivial)
  named := h.named
  mailbox := h.mailbox
  sends t' ht' := by
    show os.names s.store t' = some (update s.sending t o t')
    by_cases hne : t' = t
    · subst hne
      rw [update_self, hnames]
    · have hholds := (Transmitter.holds_of_opened ht').resolve_left hne
      rw [update_of_ne hne]
      exact h.sends t' (by rw [htransmitter]; exact hholds)
  receives t' ht' := by
    obtain ⟨b, hb⟩ := h.receives t' ht'
    exact ⟨b, hb.object, hb.creator, hb.opened, hb.named, hb.taken⟩

theorem Kept.openOrCreate (hos : os.Lawful) (h : s.Kept mqSize) {t : Topic} {r : ℕ × os.State}
    (htransmitter : s.transmitter = .opening t)
    (hr : os.openOrCreate s.store t { capacity := mqSize s.process, creator := s.process } = r) :
    Kept mqSize { s with
      store := r.2
      sending := update s.sending t r.1
      transmitter := (t.next.map Transmitter.opening).getD .running } := by
  have hcurrent : (s.process, t) ∉ s.removed := h.current t (by rw [htransmitter]; trivial)
  rcases hos.openOrCreate_cases s.store t { capacity := mqSize s.process, creator := s.process }
    with ⟨o, hnames, heq⟩ | ⟨hfree, hcreated⟩
  · -- an earlier process has left the queue
    obtain rfl := heq.symm.trans hr
    exact h.opened htransmitter hnames
  · rw [hr] at hcreated
    exact (h.create hfree hcurrent hcreated).opened htransmitter hcreated.names_self

/-- A queue that is in use is changed, and with it what the receiver has got. -/
theorem Kept.modify (hos : os.Lawful) (h : s.Kept mqSize) {t : Topic} {o : ℕ} {b b' : Mailbox α}
    (hobject : os.object s.store o = some (t, b)) (hcreator : b'.creator = b.creator)
    (hmailbox : b'.Kept mqSize s.process s.removed t) {f : Mailbox α → Mailbox α}
    (hf : f b = b') {received : Topic → List (Posted α)}
    (hreceived : ∀ t', s.receiver.Holds t' → s.receiving t' ≠ o → received t' = s.received t')
    (htaken : s.receiver.Holds t → s.receiving t = o →
      (∃ before, b.taken = before ++ s.received t) →
        ∃ before, b'.taken = before ++ received t) :
    Kept mqSize { s with store := os.modify s.store o f, received := received } := by
  have hchanged : os.object (os.modify s.store o f) o = some (t, b') := by
    rw [hos.object_modify_self, hobject, Option.map_some, hf]
  exact {
    sound := hos.sound_modify h.sound o f
    past := h.past
    current := h.current
    named := by
      intro t' o' b₁ hnames hobject₁ k hk
      rw [hos.names_modify] at hnames
      by_cases hne : o' = o
      · subst hne
        rw [hchanged] at hobject₁
        obtain ⟨rfl, rfl⟩ := Prod.mk.inj (Option.some.inj hobject₁)
        exact h.named t o' b hnames hobject k (hcreator ▸ hk)
      · rw [hos.object_modify_of_ne hne] at hobject₁
        exact h.named t' o' b₁ hnames hobject₁ k hk
    mailbox := by
      intro o' t' b₁ hobject₁
      by_cases hne : o' = o
      · subst hne
        rw [hchanged] at hobject₁
        obtain ⟨rfl, rfl⟩ := Prod.mk.inj (Option.some.inj hobject₁)
        exact hmailbox
      · rw [hos.object_modify_of_ne hne] at hobject₁
        exact h.mailbox o' t' b₁ hobject₁
    sends := by
      intro t' ht'
      rw [hos.names_modify]
      exact h.sends t' ht'
    receives := by
      intro t' ht'
      obtain ⟨b₁, hb₁⟩ := h.receives t' ht'
      by_cases hne : s.receiving t' = o
      · have heq := hb₁.object
        rw [hne, hobject] at heq
        obtain ⟨rfl, rfl⟩ := Prod.mk.inj (Option.some.inj heq)
        refine ⟨b', ?_, ?_, hb₁.opened, ?_, htaken ht' hne hb₁.taken⟩
        · exact (congrArg _ hne).trans hchanged
        · rw [hcreator]
          exact hb₁.creator
        · rw [hos.names_modify]
          exact hb₁.named
      · refine ⟨b₁, ?_, hb₁.creator, hb₁.opened, ?_, ?_⟩
        · exact (hos.object_modify_of_ne hne f).trans hb₁.object
        · rw [hos.names_modify]
          exact hb₁.named
        · obtain ⟨before, hbefore⟩ := hb₁.taken
          exact ⟨before, by rw [hbefore, ← hreceived t' ht' hne]⟩ }

theorem Kept.send (hos : os.Lawful) (h : s.Kept mqSize) (htransmitter : s.transmitter = .running)
    (t : Topic) (message : α) :
    Kept mqSize { s with
      store := os.modify s.store (s.sending t) fun b => b.trySend ⟨s.process, message⟩ } := by
  have hnames := h.sends t (by rw [htransmitter]; trivial)
  obtain ⟨b, hobject⟩ := h.sound t _ hnames
  have hmailbox := (h.mailbox _ t b hobject).trySend (h.named t _ b hnames hobject) message
  refine h.modify hos hobject (b.creator_trySend _) hmailbox rfl (fun _ _ _ => rfl) ?_
  intro _ _ htaken
  rwa [Mailbox.taken_trySend]

/-- The destructor, or the end of the process, gives names up at most. -/
theorem Kept.giveUp (h : s.Kept mqSize) {transmitter : Transmitter}
    (hkeeps : ∀ t, transmitter.Keeps t → s.transmitter.Keeps t)
    (hholds : ∀ t, transmitter.Holds t → s.transmitter.Holds t) :
    Kept mqSize { s with transmitter := transmitter } where
  sound := h.sound
  past := h.past
  current t ht := h.current t (hkeeps t ht)
  named := h.named
  mailbox := h.mailbox
  sends t ht := h.sends t (hholds t ht)
  receives t ht := by
    obtain ⟨b, hb⟩ := h.receives t ht
    exact ⟨b, hb.object, hb.creator, hb.opened, hb.named, hb.taken⟩

/-- The destructor removes a name. -/
theorem Kept.remove (hos : os.Lawful) (h : s.Kept mqSize) {t : Topic}
    (htransmitter : s.transmitter = .removing t) :
    Kept mqSize { s with
      store := os.remove s.store t
      removed := s.removed ++ [(s.process, t)]
      transmitter := (t.next.map Transmitter.removing).getD .absent } where
  sound := hos.sound_remove h.sound t
  past k t' hmem := by
    rcases List.mem_append.mp hmem with hmem | hmem
    · exact h.past k t' hmem
    · obtain ⟨rfl, -⟩ := Prod.mk.inj (List.mem_singleton.mp hmem)
      exact le_rfl
  current t' ht' hmem := by
    obtain ⟨hne, hkeeps⟩ := Transmitter.keeps_removed_iff.mp ht'
    rcases List.mem_append.mp hmem with hmem | hmem
    · exact h.current t' (by rw [htransmitter]; exact hkeeps) hmem
    · exact hne (Prod.mk.inj (List.mem_singleton.mp hmem)).2
  named t' o b hnames hobject k hk hmem := by
    rw [hos.object_remove] at hobject
    have hne : t' ≠ t := by
      rintro rfl
      rw [hos.names_remove_self] at hnames
      cases hnames
    rw [hos.names_remove_of_ne hne] at hnames
    rcases List.mem_append.mp hmem with hmem | hmem
    · exact h.named t' o b hnames hobject k hk hmem
    · exact hne (Prod.mk.inj (List.mem_singleton.mp hmem)).2
  mailbox o t' b hobject := by
    rw [hos.object_remove] at hobject
    exact (h.mailbox o t' b hobject).remove t
  sends t' ht' := by
    obtain ⟨hne, hholds⟩ := Transmitter.holds_of_removed ht'
    rw [hos.names_remove_of_ne hne]
    exact h.sends t' (by rw [htransmitter]; exact hholds)
  receives t' ht' := by
    obtain ⟨b, hb⟩ := h.receives t' ht'
    have hobject := hb.object
    rw [← hos.object_remove s.store t] at hobject
    refine ⟨b, hobject, hb.creator, hb.opened, ?_, hb.taken⟩
    rcases hb.named with hnames | ⟨k, hk, hmem⟩
    · by_cases hne : t' = t
      · -- the receiver keeps the queue that loses its name now
        subst hne
        exact Or.inr ⟨s.process, hb.opened, by simp⟩
      · exact Or.inl ((hos.names_remove_of_ne hne).trans hnames)
    · exact Or.inr ⟨k, hk, List.mem_append_left _ hmem⟩

/-! ### The steps of the receiver -/

theorem Kept.openOnly (h : s.Kept mqSize) {t : Topic} {o : ℕ}
    (hreceiver : s.receiver = .opening t) (hnames : os.names s.store t = some o) :
    Kept mqSize { s with
      receiving := update s.receiving t o
      opened := update s.opened t s.process
      received := update s.received t []
      receiver := (t.next.map Receiver.opening).getD .attached } := by
  obtain ⟨b, hobject⟩ := h.sound t o hnames
  refine { h with receives := fun t' ht' => ?_ }
  by_cases hne : t' = t
  · subst hne
    refine ⟨b, ?_, ?_, ?_, Or.inl ?_, b.taken, ?_⟩
    · show os.object s.store (update s.receiving t' o t') = _
      rw [update_self, hobject]
    · show b.creator ≤ update s.opened t' s.process t'
      rw [update_self]
      exact (h.mailbox o t' b hobject).creator
    · show update s.opened t' s.process t' ≤ _
      rw [update_self]
    · show _ = some (update s.receiving t' o t')
      rw [update_self, hnames]
    · show _ = _ ++ update s.received t' [] t'
      rw [update_self, List.append_nil]
  · have hholds := (Receiver.holds_of_opened ht').resolve_left hne
    obtain ⟨b, hb⟩ := h.receives t' (by rw [hreceiver]; exact hholds)
    refine ⟨b, ?_, ?_, ?_, ?_, ?_⟩
    · show os.object s.store (update s.receiving t o t') = _
      rw [update_of_ne hne, hb.object]
    · show b.creator ≤ update s.opened t s.process t'
      rw [update_of_ne hne]
      exact hb.creator
    · show update s.opened t s.process t' ≤ _
      rw [update_of_ne hne]
      exact hb.opened
    · show _ = some (update s.receiving t o t') ∨ ∃ k, update s.opened t s.process t' ≤ k ∧ _
      rw [update_of_ne hne, update_of_ne hne]
      exact hb.named
    · show ∃ before, _ = before ++ update s.received t [] t'
      rw [update_of_ne hne]
      exact hb.taken

/-- An attached receiver holds the queue of the topic that it receives from. -/
theorem Kept.topic_of_object (h : s.Kept mqSize) {t t' : Topic} {b : Mailbox α}
    (hreceiver : s.receiver = .attached)
    (hobject : os.object s.store (s.receiving t) = some (t', b)) : t' = t := by
  obtain ⟨b₁, hb₁⟩ := h.receives t (by rw [hreceiver]; trivial)
  have heq := hb₁.object
  rw [hobject] at heq
  exact (Prod.mk.inj (Option.some.inj heq)).1

theorem Kept.receive (hos : os.Lawful) (h : s.Kept mqSize) {t t' : Topic} {b b' : Mailbox α}
    {m : Posted α} (hreceiver : s.receiver = .attached)
    (hobject : os.object s.store (s.receiving t) = some (t', b))
    (hreceive : b.receive = some (m, b')) :
    Kept mqSize { s with
      store := os.modify s.store (s.receiving t) fun _ => b'
      received := update s.received t (s.received t ++ [m]) } := by
  obtain rfl := h.topic_of_object hreceiver hobject
  obtain ⟨hcreator, -, -, htaken, -⟩ := Mailbox.receive_eq_some hreceive
  refine h.modify hos hobject hcreator ((h.mailbox _ _ b hobject).receive hreceive) rfl ?_ ?_
  · intro t₁ _ hne
    have hne' : t₁ ≠ t' := fun heq => hne (congrArg s.receiving heq)
    rw [update_of_ne hne']
  · rintro - - ⟨before, hbefore⟩
    refine ⟨before, ?_⟩
    rw [update_self, htaken, hbefore, List.append_assoc]

/-! ## Whole runs -/

theorem Kept.change (hos : os.Lawful) (h : s.Kept mqSize) {a : RegistryAction α}
    (hchange : Change mqSize s a s') : s'.Kept mqSize := by
  cases hchange with
  | started => exact h.start
  | opened htransmitter hr => exact h.openOrCreate hos htransmitter hr
  | sent htransmitter => exact h.send hos htransmitter _ _
  | destroyed htransmitter =>
    refine h.giveUp (fun t _ => ?_) fun t _ => ?_
    · rw [htransmitter]
      trivial
    · rw [htransmitter]
      trivial
  | removed htransmitter => exact h.remove hos htransmitter
  | died => exact h.giveUp (fun t ht => ht.elim) fun t ht => ht.elim
  | attached => exact { h with receives := fun t ht => absurd ht (Nat.not_lt_zero _) }
  | openedOnly hreceiver hnames => exact h.openOnly hreceiver hnames
  | failed => exact { h with receives := fun t ht => ht.elim }
  | received hreceiver hobject hreceive => exact h.receive hos hreceiver hobject hreceive
  | detached => exact { h with receives := fun t ht => ht.elim }

theorem kept_of_run (hos : os.Lawful) {acts : List (RegistryAction α)}
    (h : run (QueueRegistry.step mqSize) {} acts = some s) : s.Kept mqSize :=
  run_induction (A := fun _ => True) (kept_empty hos)
    (fun _ _ _ _ hs hstep => hs.change hos (change_of_step hstep))
    (fun _ _ => trivial) h

/-- **What a receiver gets.** In every run of SoM processes and receivers, however the processes
end, what an attached receiver has taken out of a queue is a piece of what the queue has accepted,
with nothing lost, repeated or out of order, across all processes that have used the queue; the
queue has the size that the process that created it was configured with. Nothing comes from a
process that was started after one that has removed the name since the receiver opened the queue. -/
theorem received_of_run (hos : os.Lawful) {acts : List (RegistryAction α)}
    (h : run (QueueRegistry.step mqSize) {} acts = some s) (hreceiver : s.receiver = .attached)
    (t : Topic) :
    (∃ before b, os.object s.store (s.receiving t) = some (t, b) ∧
      before ++ s.received t ++ b.queue.items = b.accepted ∧ b.capacity = mqSize b.creator) ∧
      ((s.received t).map Posted.process).Pairwise (· ≤ ·) ∧
      ∀ m ∈ s.received t, ∀ k, s.opened t ≤ k → (k, t) ∈ s.removed → m.process ≤ k := by
  have hkept := kept_of_run hos h
  obtain ⟨b, hb⟩ := hkept.receives t (by rw [hreceiver]; trivial)
  obtain ⟨before, hbefore⟩ := hb.taken
  have hmailbox := hkept.mailbox _ t b hb.object
  have haccepted : before ++ s.received t ++ b.queue.items = b.accepted := by
    rw [← hbefore, hmailbox.conserved]
  refine ⟨⟨before, b, hb.object, haccepted, hmailbox.capacity⟩, ?_, ?_⟩
  · have hordered := hmailbox.ordered
    rw [← haccepted, List.map_append, List.map_append] at hordered
    exact (List.pairwise_append.mp (List.pairwise_append.mp hordered).1).2.1
  · intro m hm k hk hremoved
    by_contra hlt
    have hmem : m ∈ b.accepted := by
      rw [← haccepted]
      exact List.mem_append_left _ (List.mem_append_right _ hm)
    exact hmailbox.unremoved m hmem k (hb.creator.trans hk) (not_le.mp hlt) hremoved

/-- A receiver attaches to the first of two processes, which sends a message and ends orderly; the
second one sends another. -/
def restart : List (RegistryAction ℕ) :=
  [.start, .openOrCreate, .openOrCreate, .openOrCreate, .attach, .openOnly, .openOnly, .openOnly,
    .send .debug 7, .destroy, .remove, .remove, .remove, .start, .openOrCreate, .openOrCreate,
    .openOrCreate, .send .debug 8]

/-- Queues of an operating system that numbers them. -/
def numberedQueues : NamedObjects Topic (Mailbox ℕ) := NamedStore.objects Topic (Mailbox ℕ)

theorem lawful_numberedQueues : numberedQueues.Lawful := NamedStore.lawful Topic (Mailbox ℕ)

theorem received_restart :
    ∃ s : QueueRegistry numberedQueues,
      run (QueueRegistry.step fun k => k) {} (restart ++ [.receive .debug]) = some s ∧
      (s.received .debug).map Posted.message = [7] ∧ (1, .debug) ∈ s.removed ∧
      ∀ m ∈ s.received .debug, ∀ k, s.opened .debug ≤ k → (k, .debug) ∈ s.removed →
        m.process ≤ k := by
  have hrun : run (QueueRegistry.step fun k => k) ({} : QueueRegistry numberedQueues)
      (restart ++ [.receive .debug]) = some _ := rfl
  have hreceived := received_of_run lawful_numberedQueues hrun rfl .debug
  exact ⟨_, hrun, rfl, List.mem_cons_self, hreceived.2.2⟩

end QueueRegistry

end RcPlane
