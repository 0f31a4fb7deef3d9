import Mathlib.Data.List.Basic
import Mathlib.Data.List.Induction

/-!
# Interleaved runs and byte lines

Parties that take turns in any order are one partial step function on their joint state, and an
interleaving is a list of actions that can be taken one after the other. Between two parties a
line carries items in order: an item sent is in flight until it is delivered, and is then
waiting until it is received.

## Main definitions

* `run step s acts`: the state reached by the actions, if each could be taken
* `Reaches step A s P`: some run of admitted actions reaches a state with the property
* `Meets step C s acts`: every step meets a condition in the state it is taken in
* `watch step note`: the same steps, with a record kept of them
* `Line α`: the items in flight and the items waiting
* `Line.send`, `Line.deliver`, `Line.receive`: the three moves of an item
* `Line.pending`: everything sent and not received, in order

## Main results

* `run_induction`, `run_induction_of_meets`: an invariant of the admitted actions, or of the steps
  that meet a condition, holds of every state reached
* `length_add_le_of_run`, `exists_run_of_decrease`: runs whose steps decrease a measure end, and
  where there is always a step short of a goal some run reaches it
* `Reaches.trans`, `Reaches.iterate`: goals reached one after the other
* `exists_run_watch`, `meets_watch`: every run has its record, and it changes no condition
* `run_project`: a run of a system is a run of each of its parts
* `Line.pending_send`, `Line.pending_deliver`, `Line.pending_receive`: what each move does to
  the pending items
-/

namespace Foundation

/-! ## Runs -/

section Run

variable {σ α : Type*} (step : σ → α → Option σ)

/-- The state reached from `s` by the actions in order, if each of them could be taken. -/
def run : σ → List α → Option σ
  | s, [] => some s
  | s, a :: acts => (step s a).bind fun t => run t acts

@[simp] theorem run_nil (s : σ) : run step s [] = some s := rfl

@[simp] theorem run_cons (s : σ) (a : α) (acts : List α) :
    run step s (a :: acts) = (step s a).bind fun t => run step t acts := rfl

theorem run_append (s : σ) (acts acts' : List α) :
    run step s (acts ++ acts') = (run step s acts).bind fun t => run step t acts' := by
  induction acts generalizing s with
  | nil => rfl
  | cons a acts ih => simp only [List.cons_append, run_cons, ih, Option.bind_assoc]

/-- An action of a run with one more at its end is the last one, or was taken before. -/
theorem snoc_eq_append_cons {acts before after : List α} {a b : α}
    (h : acts ++ [a] = before ++ b :: after) :
    (acts = before ∧ a = b ∧ after = []) ∨
      ∃ after', after = after' ++ [a] ∧ acts = before ++ b :: after' := by
  rcases List.eq_nil_or_concat' after with rfl | ⟨after', last, rfl⟩
  · left
    obtain ⟨rfl, hlast⟩ := List.append_inj' h rfl
    exact ⟨rfl, List.singleton_inj.mp hlast, rfl⟩
  · right
    rw [← List.cons_append, ← List.append_assoc] at h
    obtain ⟨rfl, hlast⟩ := List.append_inj' h rfl
    exact ⟨after', by rw [List.singleton_inj.mp hlast], rfl⟩

variable {step}

/-- What holds at the start and is kept by every admitted action holds of every state that
admitted actions reach. -/
theorem run_induction {P : σ → Prop} {A : α → Prop} {s t : σ} {acts : List α} (start : P s)
    (keep : ∀ s a t, A a → P s → step s a = some t → P t) (admitted : ∀ a ∈ acts, A a)
    (h : run step s acts = some t) : P t := by
  induction acts generalizing s with
  | nil => exact Option.some.inj h ▸ start
  | cons a acts ih =>
    obtain ⟨u, hu, h⟩ := Option.bind_eq_some_iff.mp h
    exact ih (keep s a u (admitted a (by simp)) start hu)
      (fun b hb => admitted b (List.mem_cons_of_mem a hb)) h

/-- What holds of the start before any action, and is kept by every action that is taken, holds of
every run and the state it reaches. -/
theorem run_history_induction {P : List α → σ → Prop} {s t : σ} {acts : List α} (start : P [] s)
    (keep : ∀ acts t a u, run step s acts = some t → P acts t → step t a = some u →
      P (acts ++ [a]) u) (h : run step s acts = some t) : P acts t := by
  induction acts using List.reverseRecOn generalizing t with
  | nil => exact Option.some.inj h ▸ start
  | append_singleton acts a ih =>
    rw [run_append] at h
    obtain ⟨u, hu, hlast⟩ := Option.bind_eq_some_iff.mp h
    obtain ⟨v, hv, hend⟩ := Option.bind_eq_some_iff.mp hlast
    obtain rfl := Option.some.inj hend
    exact keep acts u a v hu (ih hu) hv

/-! ### Runs that end -/

/-- Where every step decreases a measure, a run takes no more steps than the measure of its
start. -/
theorem length_add_le_of_run {P : σ → Prop} {μ : σ → ℕ}
    (decrease : ∀ s a t, P s → step s a = some t → P t ∧ μ t < μ s) {s t : σ} {acts : List α}
    (hs : P s) (h : run step s acts = some t) : acts.length + μ t ≤ μ s := by
  induction acts generalizing s with
  | nil =>
    obtain rfl := Option.some.inj h
    exact Nat.le_of_eq (Nat.zero_add _)
  | cons a acts ih =>
    obtain ⟨u, hu, h⟩ := Option.bind_eq_some_iff.mp h
    obtain ⟨hP, hlt⟩ := decrease s a u hs hu
    have hle := ih hP h
    rw [List.length_cons]
    omega

/-- Where every step decreases a measure, and there is a step unless a goal is reached, some run
reaches the goal. -/
theorem exists_run_of_decrease {P Q : σ → Prop} {μ : σ → ℕ}
    (decrease : ∀ s a t, P s → step s a = some t → P t ∧ μ t < μ s)
    (progress : ∀ s, P s → Q s ∨ ∃ a t, step s a = some t) {s : σ} (hs : P s) :
    ∃ acts t, run step s acts = some t ∧ P t ∧ Q t := by
  induction hμ : μ s using Nat.strongRecOn generalizing s with
  | _ n ih =>
    rcases progress s hs with hQ | ⟨a, u, hu⟩
    · exact ⟨[], s, rfl, hs, hQ⟩
    · obtain ⟨hP, hlt⟩ := decrease s a u hs hu
      obtain ⟨acts, t, hrun, hPt, hQt⟩ := ih (μ u) (hμ ▸ hlt) hP rfl
      refine ⟨a :: acts, t, ?_, hPt, hQt⟩
      rw [run_cons, hu]
      exact hrun

/-! ### Goals that some run reaches -/

variable (step) in
/-- Some run of admitted actions reaches a state with the property. -/
def Reaches (A : α → Prop) (s : σ) (P : σ → Prop) : Prop :=
  ∃ acts t, run step s acts = some t ∧ (∀ a ∈ acts, A a) ∧ P t

theorem Reaches.refl {A : α → Prop} {P : σ → Prop} {s : σ} (h : P s) : Reaches step A s P :=
  ⟨[], s, rfl, by simp, h⟩

theorem Reaches.of_step {A : α → Prop} {P : σ → Prop} {s t : σ} {a : α} (ha : A a)
    (hstep : step s a = some t) (h : Reaches step A t P) : Reaches step A s P := by
  obtain ⟨acts, u, hrun, hacts, hu⟩ := h
  refine ⟨a :: acts, u, ?_, List.forall_mem_cons.mpr ⟨ha, hacts⟩, hu⟩
  rw [run_cons, hstep]
  exact hrun

theorem Reaches.trans {A : α → Prop} {P Q : σ → Prop} {s : σ} (h : Reaches step A s P)
    (hP : ∀ t, P t → Reaches step A t Q) : Reaches step A s Q := by
  obtain ⟨acts, t, hrun, hacts, ht⟩ := h
  obtain ⟨acts', u, hrun', hacts', hu⟩ := hP t ht
  refine ⟨acts ++ acts', u, ?_, List.forall_mem_append.mpr ⟨hacts, hacts'⟩, hu⟩
  rw [run_append, hrun]
  exact hrun'

/-- A goal that can be reached from the one before it can be reached any number of times. -/
theorem Reaches.iterate {A : α → Prop} {I : ℕ → σ → Prop}
    (body : ∀ n s, I n s → Reaches step A s (I (n + 1))) {s : σ} (hs : I 0 s) (n : ℕ) :
    Reaches step A s (I n) := by
  induction n with
  | zero => exact Reaches.refl hs
  | succ n ih => exact ih.trans (body n)

/-! ### Conditions on the steps of a run -/

variable (step) in
/-- Every step of the actions in order meets `C`, in the state it is taken in. -/
def Meets (C : σ → α → Prop) : σ → List α → Prop
  | _, [] => True
  | s, a :: acts => C s a ∧ ∀ t ∈ step s a, Meets C t acts

instance instDecidableMeets {C : σ → α → Prop} [∀ s a, Decidable (C s a)] :
    ∀ (s : σ) (acts : List α), Decidable (Meets step C s acts)
  | _, [] => inferInstanceAs (Decidable True)
  | s, a :: acts =>
    have : ∀ t, Decidable (Meets step C t acts) := fun t => instDecidableMeets t acts
    inferInstanceAs (Decidable (C s a ∧ ∀ t ∈ step s a, Meets step C t acts))

/-- A condition on the actions alone adds to one on the steps. -/
theorem Meets.and_forall {C : σ → α → Prop} {A : α → Prop} {s : σ} {acts : List α}
    (h : Meets step C s acts) (admitted : ∀ a ∈ acts, A a) :
    Meets step (fun s a => C s a ∧ A a) s acts := by
  induction acts generalizing s with
  | nil => trivial
  | cons a acts ih =>
    refine ⟨⟨h.1, admitted a (by simp)⟩, fun t ht => ?_⟩
    exact ih (h.2 t ht) fun b hb => admitted b (List.mem_cons_of_mem a hb)

/-- What holds at the start and is kept by every step that meets a condition holds of every state
that such steps reach. -/
theorem run_induction_of_meets {P : σ → Prop} {C : σ → α → Prop} {s t : σ} {acts : List α}
    (start : P s) (keep : ∀ s a t, C s a → P s → step s a = some t → P t)
    (meets : Meets step C s acts) (h : run step s acts = some t) : P t := by
  induction acts generalizing s with
  | nil => exact Option.some.inj h ▸ start
  | cons a acts ih =>
    obtain ⟨u, hu, h⟩ := Option.bind_eq_some_iff.mp h
    exact ih (keep s a u meets.1 start hu) (meets.2 u hu) h

/-! ### Watched runs -/

variable {τ : Type*} (note : τ → σ → α → σ → τ)

variable (step) in
/-- The steps of a system with a record kept beside it: `note` updates the record, given the state
before and after the action. -/
def watch (p : σ × τ) (a : α) : Option (σ × τ) :=
  (step p.1 a).map fun s => (s, note p.2 p.1 a s)

theorem watch_eq_some {p q : σ × τ} {a : α} (h : watch step note p a = some q) :
    step p.1 a = some q.1 ∧ q.2 = note p.2 p.1 a q.1 := by
  obtain ⟨s, hs, rfl⟩ := Option.map_eq_some_iff.mp h
  exact ⟨hs, rfl⟩

/-- Every run has its record. -/
theorem exists_run_watch {s t : σ} {acts : List α} (h : run step s acts = some t) (m : τ) :
    ∃ m', run (watch step note) (s, m) acts = some (t, m') := by
  induction acts generalizing s m with
  | nil =>
    obtain rfl := Option.some.inj h
    exact ⟨m, rfl⟩
  | cons a acts ih =>
    obtain ⟨u, hu, h⟩ := Option.bind_eq_some_iff.mp h
    obtain ⟨m', hm'⟩ := ih h (note m s a u)
    refine ⟨m', ?_⟩
    rw [run_cons, watch, hu]
    exact hm'

/-- A record kept beside the steps does not change the conditions that they meet. -/
theorem meets_watch {C : σ → α → Prop} {s : σ} {m : τ} {acts : List α} (h : Meets step C s acts) :
    Meets (watch step note) (fun p => C p.1) (s, m) acts := by
  induction acts generalizing s m with
  | nil => trivial
  | cons a acts ih =>
    refine ⟨h.1, fun q hq => ?_⟩
    obtain ⟨hstep, -⟩ := watch_eq_some note hq
    exact ih (h.2 q.1 hstep)

/-! ### Parts of a system -/

variable {β : Type*} {step' : τ → β → Option τ} {f : σ → τ} {g : α → Option β}

/-- If every step is one of a part of the system, or leaves the part alone, then a run of the
system is a run of the part. What is asked of the steps may depend on where the run ends, if it
holds earlier whenever it holds later. -/
theorem run_project {Q : σ → Prop}
    (earlier : ∀ s a t, step s a = some t → Q t → Q s)
    (project : ∀ s a t, step s a = some t → Q t →
      (g a = none ∧ f t = f s) ∨ ∃ b, g a = some b ∧ step' (f s) b = some (f t))
    {s t : σ} {acts : List α} (h : run step s acts = some t) (ht : Q t) :
    run step' (f s) (acts.filterMap g) = some (f t) := by
  suffices Q s ∧ run step' (f s) (acts.filterMap g) = some (f t) from this.2
  induction acts generalizing s with
  | nil =>
    obtain rfl := Option.some.inj h
    exact ⟨ht, rfl⟩
  | cons a acts ih =>
    obtain ⟨u, hu, h⟩ := Option.bind_eq_some_iff.mp h
    obtain ⟨hQ, hrun⟩ := ih h
    refine ⟨earlier s a u hu hQ, ?_⟩
    rcases project s a u hu hQ with ⟨hg, hf⟩ | ⟨b, hg, hstep⟩
    · rw [List.filterMap_cons_none hg, ← hf]
      exact hrun
    · rw [List.filterMap_cons_some hg, run_cons, hstep]
      exact hrun

end Run

/-! ## Lines -/

/-- One direction of a link between two parties. -/
structure Line (α : Type*) where
  /-- Sent and not yet delivered, oldest first. -/
  inFlight : List α
  /-- Delivered and not yet received, oldest first. -/
  waiting : List α
deriving Repr, DecidableEq

namespace Line

variable {α : Type*}

/-- A line that carries nothing. -/
def empty : Line α := ⟨[], []⟩

/-- Everything sent and not received, oldest first. -/
def pending (l : Line α) : List α := l.waiting ++ l.inFlight

/-- An item is put on the line. -/
def send (l : Line α) (a : α) : Line α := { l with inFlight := l.inFlight ++ [a] }

/-- The oldest item in flight arrives. -/
def deliver (l : Line α) : Option (Line α) :=
  match l.inFlight with
  | [] => none
  | a :: rest => some ⟨rest, l.waiting ++ [a]⟩

/-- The `n` oldest waiting items are taken off the line, for `n` at least one. -/
def receive (l : Line α) (n : ℕ) : Option (List α × Line α) :=
  if 0 < n ∧ n ≤ l.waiting.length then
    some (l.waiting.take n, { l with waiting := l.waiting.drop n })
  else none

@[simp] theorem pending_empty : (empty : Line α).pending = [] := rfl

@[simp] theorem pending_send (l : Line α) (a : α) : (l.send a).pending = l.pending ++ [a] := by
  simp [pending, send]

theorem pending_deliver {l l' : Line α} (h : l.deliver = some l') : l'.pending = l.pending := by
  unfold deliver at h
  split at h
  · cases h
  · next a rest hl =>
    cases h
    simp [pending, hl]

theorem pending_receive {l l' : Line α} {n : ℕ} {as : List α} (h : l.receive n = some (as, l')) :
    l.pending = as ++ l'.pending ∧ as.length = n ∧ 0 < n := by
  unfold receive at h
  split_ifs at h with hn
  cases h
  refine ⟨?_, by simp [hn.2], hn.1⟩
  simp only [pending, ← List.append_assoc, List.take_append_drop]

/-- While anything is pending, something can be delivered or one item can be received. -/
theorem deliver_or_receive_of_pending {l : Line α} (h : l.pending ≠ []) :
    (∃ l', l.deliver = some l') ∨ ∃ a l', l.receive 1 = some ([a], l') := by
  obtain ⟨inFlight, waiting⟩ := l
  cases waiting with
  | nil =>
    cases inFlight with
    | nil => exact absurd rfl h
    | cons a rest => exact Or.inl ⟨_, rfl⟩
  | cons a rest => exact Or.inr ⟨a, ⟨inFlight, rest⟩, by simp [receive]⟩

end Line

end Foundation
