import RcPlane.Telemetry.Registry

/-!
# What restarts do to a receiver

A receiver that stays while SoM processes come and go. Once a process has removed the name of a
queue, the receiver is left with what is in the queue; and where no process is killed, a queue is
never handed on from one process to the next.

## Main definitions

* `QueueRegistry.Orphaned`: the receiver holds a queue without a name
* `QueueRegistry.Orderly`: every process so far has removed its names

## Main results

* `QueueRegistry.orphaned_of_run`: what an orderly end leaves to the receiver
* `QueueRegistry.received_of_orderly_run`: a receiver gets the messages of one process
-/

namespace RcPlane

open Foundation Function

namespace QueueRegistry

variable {α : Type} {os : NamedObjects Topic (Mailbox α)} {mqSize : ℕ → ℕ}
  {s s' : QueueRegistry os}

/-! ## After an orderly end -/

/-- The receiver holds a queue that has lost its name: what it has got and what it can still get
stay the same together. -/
structure Orphaned (t : Topic) (k o : ℕ) (items : List (Posted α)) (s : QueueRegistry os) :
    Prop where
  attached : s.receiver = .attached
  receiving : s.receiving t = o
  opened : s.opened t ≤ k
  removed : (k, t) ∈ s.removed
  items : ∃ b, os.object s.store o = some (t, b) ∧ s.received t ++ b.queue.items = items

variable {t : Topic} {k o : ℕ} {items : List (Posted α)}

/-- Nobody sends to a queue that has lost its name. -/
theorem Orphaned.sending_ne (h : Orphaned t k o items s) (hkept : s.Kept mqSize)
    (htransmitter : s.transmitter = .running) (t' : Topic) : s.sending t' ≠ o := by
  intro heq
  have hnames := hkept.sends t' (by rw [htransmitter]; trivial)
  obtain ⟨b, hb⟩ := hkept.receives t (by rw [h.attached]; trivial)
  have hobject := hb.object
  rw [h.receiving] at hobject
  rw [heq] at hnames
  obtain ⟨b', hb'⟩ := hkept.sound t' o hnames
  rw [hobject] at hb'
  obtain ⟨rfl, -⟩ := Prod.mk.inj (Option.some.inj hb')
  exact hkept.named t o b hnames hobject k (hb.creator.trans h.opened) h.removed

/-- A message moves from the queue to the receiver, or from another queue. -/
theorem Orphaned.receive (hos : os.Lawful) (h : Orphaned t k o items s) (hkept : s.Kept mqSize)
    {t₁ t' : Topic} {b b' : Mailbox α} {m : Posted α}
    (hobject : os.object s.store (s.receiving t₁) = some (t', b))
    (hreceive : b.receive = some (m, b')) :
    Orphaned t k o items { s with
      store := os.modify s.store (s.receiving t₁) fun _ => b'
      received := update s.received t₁ (s.received t₁ ++ [m]) } := by
  obtain ⟨b₁, hobject₁, hitems⟩ := h.items
  obtain rfl := hkept.topic_of_object h.attached hobject
  by_cases hne : t' = t
  · subst hne
    rw [h.receiving, hobject₁] at hobject
    obtain ⟨-, rfl⟩ := Prod.mk.inj (Option.some.inj hobject)
    obtain ⟨-, -, -, -, hqueue⟩ := Mailbox.receive_eq_some hreceive
    refine { h with items := ⟨b', ?_, ?_⟩ }
    · show os.object (os.modify s.store (s.receiving t') fun _ => b') o = _
      rw [h.receiving, hos.object_modify_self, hobject₁]
      rfl
    · show update s.received t' (s.received t' ++ [m]) t' ++ b'.queue.items = items
      rw [update_self, List.append_assoc, List.singleton_append, ← hqueue, hitems]
  · have hother : o ≠ s.receiving t' := by
      intro heq
      rw [heq, hobject] at hobject₁
      exact hne (Prod.mk.inj (Option.some.inj hobject₁)).1
    refine { h with items := ⟨b₁, ?_, ?_⟩ }
    · show os.object (os.modify s.store (s.receiving t') fun _ => b') o = _
      rw [hos.object_modify_of_ne hother, hobject₁]
    · show update s.received t' (s.received t' ++ [m]) t ++ b₁.queue.items = items
      rw [update_of_ne (Ne.symm hne), hitems]

theorem Orphaned.change (hos : os.Lawful) (h : Orphaned t k o items s) (hkept : s.Kept mqSize)
    {a : RegistryAction α} (ha : a ≠ .detach) (hchange : Change mqSize s a s') :
    Orphaned t k o items s' := by
  obtain ⟨b, hobject, hitems⟩ := h.items
  cases hchange with
  | started => exact { h with }
  | opened _ hr =>
    refine { h with items := ⟨b, ?_, hitems⟩ }
    rw [← hr]
    exact hos.object_openOrCreate _ _ hobject
  | @sent t' message htransmitter =>
    have hne := (h.sending_ne hkept htransmitter t').symm
    have hobject' := (hos.object_modify_of_ne hne fun b : Mailbox α =>
      b.trySend ⟨s.process, message⟩).trans hobject
    exact { h with items := ⟨b, hobject', hitems⟩ }
  | destroyed => exact { h with }
  | @removed t' =>
    rw [← hos.object_remove s.store t'] at hobject
    exact { h with
      removed := List.mem_append_left _ h.removed
      items := ⟨b, hobject, hitems⟩ }
  | died => exact { h with }
  -- the receiver has opened its queues
  | attached hreceiver => cases h.attached.symm.trans hreceiver
  | openedOnly hreceiver => cases h.attached.symm.trans hreceiver
  | failed hreceiver => cases h.attached.symm.trans hreceiver
  | received _ hobject' hreceive => exact h.receive hos hkept hobject' hreceive
  | detached => exact absurd rfl ha

/-- **What an orderly end leaves to the receiver.** Once a process has removed the name of a queue
that the receiver holds, the receiver can still get what is in the queue, and nothing else for as
long as it runs, whatever SoM processes come after. -/
theorem orphaned_of_run (hos : os.Lawful) {acts acts' : List (RegistryAction α)}
    (h : run (QueueRegistry.step mqSize) {} acts = some s) (hreceiver : s.receiver = .attached)
    {b : Mailbox α} (hobject : os.object s.store (s.receiving t) = some (t, b))
    (hopened : s.opened t ≤ k) (hremoved : (k, t) ∈ s.removed)
    (h' : run (QueueRegistry.step mqSize) s acts' = some s') (hdetach : .detach ∉ acts') :
    ∃ b', os.object s'.store (s.receiving t) = some (t, b') ∧
      s'.received t ++ b'.queue.items = s.received t ++ b.queue.items := by
  have horphaned : Orphaned t k (s.receiving t) (s.received t ++ b.queue.items) s :=
    ⟨hreceiver, rfl, hopened, hremoved, b, hobject, rfl⟩
  obtain ⟨-, hend⟩ := run_induction (P := fun r : QueueRegistry os => r.Kept mqSize ∧
    Orphaned t k (s.receiving t) (s.received t ++ b.queue.items) r)
    (A := fun a => a ≠ .detach) ⟨kept_of_run hos h, horphaned⟩
    (fun r a r' ha hr hstep => ⟨hr.1.change hos (change_of_step hstep),
      hr.2.change hos hr.1 ha (change_of_step hstep)⟩)
    (fun a ha hdetached => hdetach (by rwa [hdetached] at ha)) h'
  exact hend.items

/-- The message of the first process is all that is left. -/
theorem orphaned_restart :
    ∃ (s : QueueRegistry numberedQueues) (b : Mailbox ℕ) (s' : QueueRegistry numberedQueues)
      (b' : Mailbox ℕ), run (QueueRegistry.step fun k => k) {} restart = some s ∧
      numberedQueues.object s.store (s.receiving .debug) = some (.debug, b) ∧
      run (QueueRegistry.step fun k => k) s [.receive .debug] = some s' ∧
      numberedQueues.object s'.store (s.receiving .debug) = some (.debug, b') ∧
      s'.received .debug ++ b'.queue.items = s.received .debug ++ b.queue.items := by
  have hrun : run (QueueRegistry.step fun k => k) ({} : QueueRegistry numberedQueues) restart =
    some _ := rfl
  obtain ⟨b', hobject, hitems⟩ := orphaned_of_run lawful_numberedQueues (t := .debug) (k := 1)
    hrun rfl rfl le_rfl List.mem_cons_self
    (rfl : run (QueueRegistry.step fun k => k) _ [.receive .debug] = some _) (by simp)
  exact ⟨_, _, _, b', hrun, rfl, rfl, hobject, hitems⟩

/-! ## When no process is killed -/

/-- Every process so far has removed its names, so that what has a name is of the current one. -/
structure Orderly (s : QueueRegistry os) : Prop where
  started : s.transmitter ≠ .absent → 0 < s.process
  named : ∀ t o b, os.names s.store t = some o → os.object s.store o = some (t, b) →
    b.creator = s.process
  free : ∀ t, ¬ s.transmitter.Keeps t → os.names s.store t = none
  past : ∀ k t, 0 < k → k < s.process → (k, t) ∈ s.removed
  current : ∀ t, ¬ s.transmitter.Keeps t → 0 < s.process → (s.process, t) ∈ s.removed
  opened : ∀ t b, s.receiver.Holds t → os.object s.store (s.receiving t) = some (t, b) →
    0 < s.opened t ∧ b.creator = s.opened t

theorem orderly_empty (hos : os.Lawful) : Orderly ({} : QueueRegistry os) where
  started h := absurd rfl h
  named t o b h := by
    rw [show os.names _ t = none from hos.names_empty t] at h
    cases h
  free t _ := hos.names_empty t
  past _ _ _ h := absurd h (Nat.not_lt_zero _)
  current _ _ h := absurd h (Nat.lt_irrefl 0)
  opened _ _ h := h.elim

/-- A process is started when the one before it has removed its names. -/
theorem Orderly.start (h : s.Orderly) (htransmitter : s.transmitter = .absent) :
    Orderly { s with process := s.process + 1, transmitter := .opening .debug } := by
  have hended : ∀ t, ¬ s.transmitter.Keeps t := by
    intro t
    rw [htransmitter]
    exact fun hkeeps => hkeeps
  exact {
    started := fun _ => Nat.succ_pos _
    named := by
      intro t o b hnames
      rw [h.free t (hended t)] at hnames
      cases hnames
    free := fun t ht => absurd trivial ht
    past := by
      intro k t hpos hlt
      rcases Nat.lt_succ_iff_lt_or_eq.mp hlt with hlt | rfl
      · exact h.past k t hpos hlt
      · exact h.current t (hended t) hpos
    current := fun t ht => absurd trivial ht
    opened := h.opened }

/-- The transmitter goes on without giving a name up. -/
theorem Orderly.goOn (h : s.Orderly) {transmitter : Transmitter} {sending : Topic → ℕ}
    (hbefore : s.transmitter ≠ .absent) (hkeeps : ∀ t, transmitter.Keeps t) :
    Orderly { s with transmitter := transmitter, sending := sending } where
  started _ := h.started hbefore
  named := h.named
  free t ht := absurd (hkeeps t) ht
  past := h.past
  current t ht := absurd (hkeeps t) ht
  opened := h.opened

/-- A queue is created under a name that the current process has not removed. -/
theorem Orderly.create (h : s.Orderly) (hkept : s.Kept mqSize) {t : Topic}
    (hkeeps : s.transmitter.Keeps t) {b : Mailbox α} (hcreator : b.creator = s.process)
    {r : ℕ × os.State} (hr : os.Created s.store t b r) :
    Orderly { s with store := r.2 } where
  started := h.started
  named := by
    intro t' o b' hnames hobject
    by_cases hne : t' = t
    · subst hne
      rw [hr.names_self] at hnames
      obtain rfl := Option.some.inj hnames
      rw [hr.object_self] at hobject
      obtain rfl := (Prod.mk.inj (Option.some.inj hobject)).2
      exact hcreator
    · rw [hr.names_of_ne hne] at hnames
      obtain ⟨b₁, hb₁⟩ := hkept.sound t' o hnames
      rw [hr.object_of_ne (hr.ne hb₁)] at hobject
      exact h.named t' o b' hnames hobject
  free := by
    intro t' ht'
    have hne : t' ≠ t := by
      rintro rfl
      exact ht' hkeeps
    rw [hr.names_of_ne hne]
    exact h.free t' ht'
  past := h.past
  current := h.current
  opened := by
    intro t' b' ht' hobject
    obtain ⟨b₁, hb₁⟩ := hkept.receives t' ht'
    rw [hr.object_of_ne (hr.ne hb₁.object)] at hobject
    exact h.opened t' b' ht' hobject

theorem Orderly.openOrCreate (hos : os.Lawful) (h : s.Orderly) (hkept : s.Kept mqSize) {t : Topic}
    {r : ℕ × os.State} (htransmitter : s.transmitter = .opening t)
    (hr : os.openOrCreate s.store t { capacity := mqSize s.process, creator := s.process } = r) :
    Orderly { s with
      store := r.2
      sending := update s.sending t r.1
      transmitter := (t.next.map Transmitter.opening).getD .running } := by
  have hbefore : s.transmitter ≠ .absent := by
    rw [htransmitter]
    simp
  have hkeeps : s.transmitter.Keeps t := by
    rw [htransmitter]
    trivial
  rcases hos.openOrCreate_cases s.store t { capacity := mqSize s.process, creator := s.process }
    with ⟨o, -, heq⟩ | ⟨-, hcreated⟩
  · obtain rfl := heq.symm.trans hr
    exact h.goOn hbefore fun _ => Transmitter.keeps_opened
  · rw [hr] at hcreated
    exact (h.create hkept hkeeps rfl hcreated).goOn hbefore fun _ => Transmitter.keeps_opened

/-- A queue is changed, but not who has created it. -/
theorem Orderly.modify (hos : os.Lawful) (h : s.Orderly) {t : Topic} {o : ℕ} {b : Mailbox α}
    (hobject : os.object s.store o = some (t, b)) {f : Mailbox α → Mailbox α}
    (hf : (f b).creator = b.creator) {received : Topic → List (Posted α)} :
    Orderly { s with store := os.modify s.store o f, received := received } := by
  have hback : ∀ t' o' b', os.object (os.modify s.store o f) o' = some (t', b') →
      ∃ b₁, os.object s.store o' = some (t', b₁) ∧ b'.creator = b₁.creator := by
    intro t' o' b' hobject'
    by_cases hne : o' = o
    · subst hne
      rw [hos.object_modify_self, hobject] at hobject'
      obtain ⟨rfl, rfl⟩ := Prod.mk.inj (Option.some.inj hobject')
      exact ⟨b, hobject, hf⟩
    · rw [hos.object_modify_of_ne hne] at hobject'
      exact ⟨b', hobject', rfl⟩
  exact {
    started := h.started
    named := by
      intro t' o' b' hnames hobject'
      rw [hos.names_modify] at hnames
      obtain ⟨b₁, hb₁, heq⟩ := hback t' o' b' hobject'
      rw [heq]
      exact h.named t' o' b₁ hnames hb₁
    free := by
      intro t' ht'
      rw [hos.names_modify]
      exact h.free t' ht'
    past := h.past
    current := h.current
    opened := by
      intro t' b' ht' hobject'
      obtain ⟨b₁, hb₁, heq⟩ := hback t' _ b' hobject'
      rw [heq]
      exact h.opened t' b₁ ht' hb₁ }

/-- The destructor removes a name of the current process. -/
theorem Orderly.remove (hos : os.Lawful) (h : s.Orderly) {t : Topic}
    (htransmitter : s.transmitter = .removing t) :
    Orderly { s with
      store := os.remove s.store t
      removed := s.removed ++ [(s.process, t)]
      transmitter := (t.next.map Transmitter.removing).getD .absent } := by
  have hstarted : 0 < s.process := by
    apply h.started
    rw [htransmitter]
    simp
  -- the names given up are those of before and the one that is removed now
  have hgone : ∀ t', ¬ ((t.next.map Transmitter.removing).getD .absent).Keeps t' →
      t' = t ∨ ¬ s.transmitter.Keeps t' := by
    intro t' ht'
    rw [Transmitter.keeps_removed_iff, not_and_or, not_not] at ht'
    rwa [htransmitter]
  exact {
    started := fun _ => hstarted
    named := by
      intro t' o b hnames hobject
      rw [hos.object_remove] at hobject
      by_cases hne : t' = t
      · subst hne
        rw [hos.names_remove_self] at hnames
        cases hnames
      · rw [hos.names_remove_of_ne hne] at hnames
        exact h.named t' o b hnames hobject
    free := by
      intro t' ht'
      by_cases hne : t' = t
      · subst hne
        exact hos.names_remove_self
      · rw [hos.names_remove_of_ne hne]
        exact h.free t' ((hgone t' ht').resolve_left hne)
    past := fun k t' hpos hlt => List.mem_append_left _ (h.past k t' hpos hlt)
    current := by
      intro t' ht' _
      rcases hgone t' ht' with rfl | hkeeps
      · exact List.mem_append_right _ (List.mem_singleton_self _)
      · exact List.mem_append_left _ (h.current t' hkeeps hstarted)
    opened := by
      intro t' b ht' hobject
      rw [hos.object_remove] at hobject
      exact h.opened t' b ht' hobject }

/-- The receiver opens a queue of the current process. -/
theorem Orderly.openOnly (h : s.Orderly) {t : Topic} {o : ℕ} (hreceiver : s.receiver = .opening t)
    (hnames : os.names s.store t = some o) :
    Orderly { s with
      receiving := update s.receiving t o
      opened := update s.opened t s.process
      received := update s.received t []
      receiver := (t.next.map Receiver.opening).getD .attached } := by
  -- a name that is there is the current process's
  have hstarted : 0 < s.process := by
    apply h.started
    intro habsent
    have hfree := h.free t (by rw [habsent]; exact fun hkeeps => hkeeps)
    rw [hfree] at hnames
    cases hnames
  refine { h with opened := fun t' b ht' hobject => ?_ }
  by_cases hne : t' = t
  · subst hne
    simp only [update_self] at hobject ⊢
    exact ⟨hstarted, h.named t' o b hnames hobject⟩
  · simp only [update_of_ne hne] at hobject ⊢
    have hholds := (Receiver.holds_of_opened ht').resolve_left hne
    exact h.opened t' b (by rw [hreceiver]; exact hholds) hobject

theorem Orderly.change (hos : os.Lawful) (h : s.Orderly) (hkept : s.Kept mqSize)
    {a : RegistryAction α} (ha : a ≠ .die) (hchange : Change mqSize s a s') : s'.Orderly := by
  cases hchange with
  | started htransmitter => exact h.start htransmitter
  | opened htransmitter hr => exact h.openOrCreate hos hkept htransmitter hr
  | @sent t message htransmitter =>
    have hnames := hkept.sends t (by rw [htransmitter]; trivial)
    obtain ⟨b, hobject⟩ := hkept.sound t _ hnames
    exact h.modify hos hobject (b.creator_trySend _)
  | destroyed htransmitter =>
    refine h.goOn ?_ fun t => Nat.zero_le t.index
    rw [htransmitter]
    simp
  | removed htransmitter => exact h.remove hos htransmitter
  | died => exact absurd rfl ha
  | attached => exact { h with opened := fun t b ht => absurd ht (Nat.not_lt_zero _) }
  | openedOnly hreceiver hnames => exact h.openOnly hreceiver hnames
  | failed => exact { h with opened := fun t b ht => ht.elim }
  | received _ hobject hreceive =>
    exact h.modify hos hobject (Mailbox.receive_eq_some hreceive).1
  | detached => exact { h with opened := fun t b ht => ht.elim }

theorem orderly_of_run (hos : os.Lawful) {acts : List (RegistryAction α)}
    (h : run (QueueRegistry.step mqSize) {} acts = some s) (hdie : .die ∉ acts) : s.Orderly := by
  have hboth := run_induction (P := fun r : QueueRegistry os => r.Kept mqSize ∧ r.Orderly)
    (A := fun a => a ≠ .die) ⟨kept_empty hos, orderly_empty hos⟩
    (fun r a r' ha hr hstep => ⟨hr.1.change hos (change_of_step hstep),
      hr.2.change hos hr.1 ha (change_of_step hstep)⟩)
    (fun a ha hdied => hdie (by rwa [hdied] at ha)) h
  exact hboth.2

/-- **A receiver gets the messages of one process.** In every run in which no process is killed,
each queue that an attached receiver holds was created by the process that was there when the
receiver opened it, has the size that this process was configured with, and has accepted messages of
this process only. -/
theorem received_of_orderly_run (hos : os.Lawful) {acts : List (RegistryAction α)}
    (h : run (QueueRegistry.step mqSize) {} acts = some s) (hdie : .die ∉ acts)
    (hreceiver : s.receiver = .attached) (t : Topic) :
    ∃ b, os.object s.store (s.receiving t) = some (t, b) ∧ b.creator = s.opened t ∧
      b.capacity = mqSize (s.opened t) ∧ ∀ m ∈ b.accepted, m.process = s.opened t := by
  have hkept := kept_of_run hos h
  have horderly := orderly_of_run hos h hdie
  have hholds : s.receiver.Holds t := by
    rw [hreceiver]
    trivial
  obtain ⟨b, hb⟩ := hkept.receives t hholds
  obtain ⟨hpos, hcreator⟩ := horderly.opened t b hholds hb.object
  have hmailbox := hkept.mailbox _ t b hb.object
  refine ⟨b, hb.object, hcreator, by rw [← hcreator, hmailbox.capacity], fun m hm => ?_⟩
  obtain ⟨hfirst, hlast⟩ := hmailbox.posted m hm
  rw [hcreator] at hfirst
  -- a later process starts after this one has removed the name
  by_contra hne
  have hlt : s.opened t < m.process := lt_of_le_of_ne hfirst (Ne.symm hne)
  have hremoved := horderly.past _ t hpos (hlt.trans_le hlast)
  exact hmailbox.unremoved m hm _ hcreator.le hlt hremoved

theorem received_orderly_restart :
    ∃ (s : QueueRegistry numberedQueues) (b : Mailbox ℕ),
      run (QueueRegistry.step fun k => k) {} restart = some s ∧
      numberedQueues.object s.store (s.receiving .debug) = some (.debug, b) ∧
      ∀ m ∈ b.accepted, m.process = s.opened .debug := by
  have hrun : run (QueueRegistry.step fun k => k) ({} : QueueRegistry numberedQueues) restart =
    some _ := rfl
  obtain ⟨b, hobject, -, -, haccepted⟩ :=
    received_of_orderly_run lawful_numberedQueues hrun (by simp [restart]) rfl .debug
  exact ⟨_, b, hrun, hobject, haccepted⟩

-- a message of a killed process is delivered to a receiver of the next one
example :
    (run (QueueRegistry.step fun k => k) ({} : QueueRegistry numberedQueues)
      [.start, .openOrCreate, .openOrCreate, .openOrCreate, .send .debug 7, .die, .start,
        .openOrCreate, .openOrCreate, .openOrCreate, .attach, .openOnly, .openOnly, .openOnly,
        .receive .debug]).map (fun s => (s.opened .debug, (s.received .debug).map Posted.process)) =
      some (2, [1]) := rfl

end QueueRegistry

end RcPlane
