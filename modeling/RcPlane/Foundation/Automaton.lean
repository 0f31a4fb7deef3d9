import Mathlib.Data.List.Forall2
import Mathlib.Data.List.Induction
import Mathlib.Data.Prod.Basic

/-!
# Automata with outputs, and their runs

An automaton answers every input with an output and a next state. Its properties over whole
runs follow from one step: an invariant is kept along a run, a property of one answer holds of
every answer of a run, and two automata related step by step give equal answers.

## Main definitions

* `Automaton σ ι ο`: a start state and a step function
* `Automaton.after M xs`: the state reached on the inputs `xs`
* `Automaton.trace M xs`, `Automaton.outputs M xs`: the states and answers met on the way

## Main results

* `Automaton.after_induction`: an invariant of the steps holds of every state reached
* `Automaton.after_of_latch`: so does what an input sets, after it
* `Automaton.forall_trace_iff`: a property of all answers, as a condition on all inputs
* `Automaton.forall_prefix_iff`: a view of all states, as a condition on all steps
* `Automaton.traceFrom_rel`: two related runs give related answers
* `Automaton.after_outputs_map`: so do a run and the run on translated inputs
-/

namespace Foundation

/-- A deterministic automaton answering every input. -/
structure Automaton (σ ι ο : Type*) where
  /-- The state before any input. -/
  start : σ
  /-- The next state and the answer. -/
  step : σ → ι → σ × ο

namespace Automaton

variable {σ τ ι κ ο ω : Type*} (M : Automaton σ ι ο)

/-- The state reached from `s` on the inputs `xs`. -/
def afterFrom (s : σ) (xs : List ι) : σ := xs.foldl (fun s x => (M.step s x).1) s

/-- The states and answers met from `s` on the inputs `xs`, one for each input. -/
def traceFrom : σ → List ι → List (σ × ο)
  | _, [] => []
  | s, x :: xs => M.step s x :: traceFrom (M.step s x).1 xs

/-- The state reached on the inputs `xs`. -/
def after (xs : List ι) : σ := M.afterFrom M.start xs

/-- The states and answers met on the inputs `xs`. -/
def trace (xs : List ι) : List (σ × ο) := M.traceFrom M.start xs

/-- The answers to the inputs `xs`. -/
def outputs (xs : List ι) : List ο := (M.trace xs).map Prod.snd

@[simp] theorem afterFrom_nil (s : σ) : M.afterFrom s [] = s := rfl

@[simp] theorem afterFrom_cons (s : σ) (x : ι) (xs : List ι) :
    M.afterFrom s (x :: xs) = M.afterFrom (M.step s x).1 xs := rfl

@[simp] theorem traceFrom_nil (s : σ) : M.traceFrom s [] = [] := rfl

@[simp] theorem traceFrom_cons (s : σ) (x : ι) (xs : List ι) :
    M.traceFrom s (x :: xs) = M.step s x :: M.traceFrom (M.step s x).1 xs := rfl

theorem afterFrom_append (s : σ) (xs ys : List ι) :
    M.afterFrom s (xs ++ ys) = M.afterFrom (M.afterFrom s xs) ys :=
  List.foldl_append

theorem traceFrom_append (s : σ) (xs ys : List ι) :
    M.traceFrom s (xs ++ ys) = M.traceFrom s xs ++ M.traceFrom (M.afterFrom s xs) ys := by
  induction xs generalizing s with
  | nil => rfl
  | cons x xs ih => simp only [List.cons_append, traceFrom_cons, afterFrom_cons, ih]

@[simp] theorem after_nil : M.after [] = M.start := rfl

theorem after_snoc (xs : List ι) (x : ι) : M.after (xs ++ [x]) = (M.step (M.after xs) x).1 :=
  M.afterFrom_append _ xs [x]

@[simp] theorem trace_nil : M.trace [] = [] := rfl

theorem trace_snoc (xs : List ι) (x : ι) :
    M.trace (xs ++ [x]) = M.trace xs ++ [M.step (M.after xs) x] :=
  M.traceFrom_append _ xs [x]

@[simp] theorem outputs_nil : M.outputs [] = [] := rfl

theorem outputs_snoc (xs : List ι) (x : ι) :
    M.outputs (xs ++ [x]) = M.outputs xs ++ [(M.step (M.after xs) x).2] := by
  rw [outputs, trace_snoc, List.map_append, List.map_singleton, outputs]

@[simp] theorem length_trace (xs : List ι) : (M.trace xs).length = xs.length := by
  induction xs using List.reverseRecOn with
  | nil => rfl
  | append_singleton xs x ih => rw [trace_snoc, List.length_append, ih]; simp

@[simp] theorem length_outputs (xs : List ι) : (M.outputs xs).length = xs.length := by
  rw [outputs, List.length_map, length_trace]

theorem outputs_append (xs ys : List ι) :
    M.outputs (xs ++ ys) =
      M.outputs xs ++ (M.traceFrom (M.after xs) ys).map Prod.snd := by
  rw [outputs, trace, traceFrom_append, List.map_append]
  rfl

/-- The answers to the last inputs depend on the others through the state only. -/
theorem drop_outputs_append (xs ys : List ι) :
    (M.outputs (xs ++ ys)).drop xs.length =
      (M.traceFrom (M.after xs) ys).map Prod.snd := by
  rw [outputs_append, ← M.length_outputs xs, List.drop_left]

/-- The answers to the first inputs do not depend on the others. -/
theorem outputs_take (xs : List ι) (n : ℕ) : M.outputs (xs.take n) = (M.outputs xs).take n := by
  induction xs using List.reverseRecOn with
  | nil => simp
  | append_singleton xs x ih =>
    rcases Nat.lt_or_ge xs.length n with hn | hn
    · have hlen : (xs ++ [x]).length ≤ n := by
        rw [List.length_append, List.length_singleton]
        omega
      have hlen' : (M.outputs (xs ++ [x])).length ≤ n := by
        rw [length_outputs]
        exact hlen
      rw [List.take_of_length_le hlen, List.take_of_length_le hlen']
    · have hlen : n ≤ (M.outputs xs).length := by
        rw [length_outputs]
        exact hn
      rw [List.take_append_of_le_length hn, ih, outputs_snoc, List.take_append_of_le_length hlen]

/-- The answer to an input is the one given in the state that the inputs before it lead to. -/
theorem getElem?_outputs (xs : List ι) (x : ι) (ys : List ι) :
    (M.outputs (xs ++ x :: ys))[xs.length]? = some (M.step (M.after xs) x).2 := by
  have htake : (xs ++ x :: ys).take (xs.length + 1) = xs ++ [x] := by
    rw [List.take_length_add_append, List.take_succ_cons, List.take_zero]
  have hlen : (M.outputs xs).length = xs.length := M.length_outputs xs
  rw [← List.getElem?_take_of_lt (Nat.lt_succ_self xs.length), ← M.outputs_take, htake,
    outputs_snoc, ← hlen, List.getElem?_concat_length]

/-! ## Invariants -/

variable {M}

/-- What the start state satisfies and every admitted step keeps holds of every state reached on
admitted inputs. -/
theorem after_induction {P : σ → Prop} {A : ι → Prop} (start : P M.start)
    (step : ∀ s x, A x → P s → P (M.step s x).1) {xs : List ι} (admitted : ∀ x ∈ xs, A x) :
    P (M.after xs) := by
  induction xs using List.reverseRecOn with
  | nil => exact start
  | append_singleton xs x ih =>
    rw [after_snoc]
    refine step _ x (admitted x (by simp)) (ih fun y hy => admitted y ?_)
    exact List.mem_append_left _ hy

/-- What one input sets in every state, and every step keeps, holds ever after that input. -/
theorem after_of_latch {P : σ → Prop} {x : ι} (set : ∀ s, P (M.step s x).1)
    (keep : ∀ s y, P s → P (M.step s y).1) (pre post : List ι) :
    P (M.after (pre ++ x :: post)) := by
  induction post using List.reverseRecOn with
  | nil =>
    rw [after_snoc]
    exact set _
  | append_singleton post y ih =>
    rw [← List.cons_append, ← List.append_assoc, after_snoc]
    exact keep _ y ih

/-- Where an answer has a property exactly when its input meets a condition, the answers of a
run all have it exactly when all its inputs do. -/
theorem forall_trace_iff {P : σ → Prop} {Q : σ × ο → Prop} {C : ι → Prop} (start : P M.start)
    (step : ∀ s x, P s → P (M.step s x).1) (answer : ∀ s x, P s → (Q (M.step s x) ↔ C x))
    (xs : List ι) : (∀ p ∈ M.trace xs, Q p) ↔ ∀ x ∈ xs, C x := by
  induction xs using List.reverseRecOn with
  | nil => simp
  | append_singleton xs x ih =>
    have hP : P (M.after xs) :=
      after_induction (A := fun _ => True) start (fun s x _ => step s x) fun _ _ => trivial
    simp only [trace_snoc, List.mem_append, List.mem_singleton, or_imp, forall_and, forall_eq,
      ih, answer _ x hP]

/-- Every answer of a run is the answer to one of its inputs in a state the run reached. -/
theorem exists_of_mem_trace {p : σ × ο} {xs : List ι} (h : p ∈ M.trace xs) :
    ∃ pre x post, xs = pre ++ x :: post ∧ p = M.step (M.after pre) x := by
  induction xs using List.reverseRecOn with
  | nil => cases h
  | append_singleton xs x ih =>
    rw [trace_snoc, List.mem_append, List.mem_singleton] at h
    rcases h with h | rfl
    · obtain ⟨pre, y, post, rfl, hp⟩ := ih h
      exact ⟨pre, y, post ++ [x], by simp, hp⟩
    · exact ⟨xs, x, [], rfl, rfl⟩

/-- Where a step keeps the view `f` of the state equal to a function `J` of the history exactly
when it meets a condition, the view is that function along a run exactly when all steps do. -/
theorem forall_prefix_iff {α : Type*} {f : σ → α} {J : List ι → α} {C : List ι → ι → Prop}
    (start : f M.start = J [])
    (step : ∀ s pre x, f s = J pre → (f (M.step s x).1 = J (pre ++ [x]) ↔ C pre x))
    (xs : List ι) :
    (∀ pre post, xs = pre ++ post → f (M.after pre) = J pre) ↔
      ∀ pre x post, xs = pre ++ x :: post → C pre x := by
  constructor
  · intro h pre x post hxs
    have hnext := h (pre ++ [x]) post (by simp [hxs])
    rw [after_snoc] at hnext
    exact (step _ pre x (h pre (x :: post) hxs)).mp hnext
  · intro h pre
    induction pre using List.reverseRecOn with
    | nil => exact fun _ _ => start
    | append_singleton pre x ih =>
      intro post hxs
      have hxs' : xs = pre ++ x :: post := by simp [hxs]
      rw [after_snoc]
      exact (step _ pre x (ih (x :: post) hxs')).mpr (h pre x post hxs')

/-! ## Two runs -/

/-- Step by step related automata, on inputs related in order, reach related states and give
related answers. -/
theorem traceFrom_rel {N : Automaton τ κ ω} {R : σ → τ → Prop} {E : ι → κ → Prop}
    {F : σ × ο → τ × ω → Prop}
    (step : ∀ s t x y, R s t → E x y →
      R (M.step s x).1 (N.step t y).1 ∧ F (M.step s x) (N.step t y))
    {xs : List ι} {ys : List κ} (inputs : List.Forall₂ E xs ys) :
    ∀ {s t}, R s t → R (M.afterFrom s xs) (N.afterFrom t ys) ∧
      List.Forall₂ F (M.traceFrom s xs) (N.traceFrom t ys) := by
  induction inputs with
  | nil => exact fun h => ⟨h, List.Forall₂.nil⟩
  | cons hxy _ ih =>
    intro s t h
    obtain ⟨hR, hF⟩ := step s t _ _ h hxy
    obtain ⟨hA, hT⟩ := ih hR
    exact ⟨hA, List.Forall₂.cons hF hT⟩

/-- Where the steps of one automaton correspond to those of another on translated inputs, so do the
states and the answers of its runs. -/
theorem after_outputs_map {β : Type*} {N : Automaton τ κ ω} {R : σ → τ → Prop} {A : ι → Prop}
    {g : ι → κ} {p : ο → β} {q : ω → β} (start : R M.start N.start)
    (step : ∀ s t x, A x → R s t →
      R (M.step s x).1 (N.step t (g x)).1 ∧ p (M.step s x).2 = q (N.step t (g x)).2)
    {xs : List ι} (admitted : ∀ x ∈ xs, A x) :
    R (M.after xs) (N.after (xs.map g)) ∧
      (M.outputs xs).map p = (N.outputs (xs.map g)).map q := by
  induction xs using List.reverseRecOn with
  | nil => exact ⟨start, rfl⟩
  | append_singleton xs x ih =>
    obtain ⟨hstate, houtputs⟩ := ih fun y hy => admitted y (List.mem_append_left _ hy)
    obtain ⟨hnext, hanswer⟩ := step _ _ x (admitted x (by simp)) hstate
    simp only [List.map_append, List.map_singleton, after_snoc, outputs_snoc]
    exact ⟨hnext, by rw [houtputs, hanswer]⟩

/-- Related states answer related inputs alike from there on, when they do so once and are related
again. -/
theorem traceFrom_snd_eq_of_rel {R : σ → σ → Prop} {E : ι → ι → Prop}
    (step : ∀ s t x y, R s t → E x y →
      R (M.step s x).1 (M.step t y).1 ∧ (M.step s x).2 = (M.step t y).2)
    {xs ys : List ι} (inputs : List.Forall₂ E xs ys) {s t : σ} (start : R s t) :
    (M.traceFrom s xs).map Prod.snd = (M.traceFrom t ys).map Prod.snd := by
  have h := (traceFrom_rel (N := M) (F := fun p q => p.2 = q.2) step inputs start).2
  rw [← List.forall₂_eq_eq_eq, List.forall₂_map_left_iff, List.forall₂_map_right_iff]
  exact h

/-- Two runs of one automaton on related inputs give equal answers, when related states answer
related inputs alike. -/
theorem outputs_eq_of_rel {R : σ → σ → Prop} {E : ι → ι → Prop} (start : R M.start M.start)
    (step : ∀ s t x y, R s t → E x y →
      R (M.step s x).1 (M.step t y).1 ∧ (M.step s x).2 = (M.step t y).2)
    {xs ys : List ι} (inputs : List.Forall₂ E xs ys) : M.outputs xs = M.outputs ys :=
  traceFrom_snd_eq_of_rel step inputs start

end Automaton

end Foundation
