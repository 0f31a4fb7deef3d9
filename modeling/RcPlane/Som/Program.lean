import RcPlane.Som.Lifecycle

/-!
# The program

`main` constructs the controller before it starts the io thread. The constructor begins the wait
for SIGINT, whose handler does not run yet, and then asserts the values of three calls: the
configuration is loaded, the serial port is open, and the message queues are there. What these calls
return is up to the machine; reading the configuration may also throw, which `main` does not catch.

## Main definitions

* `ConstructorCall`, `Program`: where the program stands
* `ProgramAction`, `Program.step`: what can happen
* `Program.Asserted`, `Program.Returned`: how the program has ended

## Main results

* `Program.process_of_run`: past the constructor the program is a process
* `Program.asserted_iff_of_run`: which assertions can end it
* `Program.exit_of_run`: how the program can end
-/

namespace RcPlane

open Foundation

/-- The calls of the constructor whose values are asserted. -/
inductive ConstructorCall
  | loadConfig
  | open
  | init
deriving DecidableEq, Repr

/-- The call that follows, if there is one. -/
def ConstructorCall.next : ConstructorCall → Option ConstructorCall
  | loadConfig => some .open
  | .open => some .init
  | init => none

/-- The program: in the constructor, before the given call has returned; ended there by its
assertion, or by an exception; or past the constructor. -/
inductive Program (D : Type)
  | constructing (call : ConstructorCall) (signal : Signal)
  | asserted (call : ConstructorCall)
  | terminated
  | constructed (p : Process D)

/-- What can happen: the call of the constructor returns a value, or an exception leaves the
constructor; SIGINT arrives in the constructor; and what can happen to a process. -/
inductive ProgramAction
  | returned (value : Bool)
  | thrown
  | raise
  | process (a : ProcessAction)
deriving DecidableEq, Repr

/-- What the action is to a process that stands before `startIoThread` all along. -/
def ProgramAction.process? : ProgramAction → Option ProcessAction
  | returned _ => none
  | thrown => none
  | raise => some .raise
  | process a => some a

/-- SIGINT is raised, in the constructor or later. -/
def ProgramAction.RaisesSignal (a : ProgramAction) : Prop := a.process? = some .raise

namespace Program

variable {D : Type}

/-- `main` begins. -/
def boot : Program D := constructing .loadConfig .awaited

section Step

variable [Double D] (c : SomConfig D)

/-- The effect of an action, if it can be taken. -/
def step : Program D → ProgramAction → Option (Program D)
  | constructing call signal, .returned true =>
    match call.next with
    | some next => some (constructing next signal)
    | none => some (constructed { Process.boot with signal := signal })
  | constructing call _, .returned false => some (asserted call)
  | constructing _ _, .thrown => some terminated
  | constructing call .awaited, .raise => some (constructing call .raised)
  | constructed p, .process a => (p.step c a).map constructed
  | _, _ => none

end Step

/-- An assertion has ended the program. -/
def Asserted : Program D → Prop
  | asserted _ => True
  | constructed p => p.main = .failed
  | _ => False

/-- `main` has returned. -/
def Returned (code : ExitCode) : Program D → Prop
  | constructed p => p.main = .returned code
  | _ => False

variable [Double D] {c : SomConfig D} {s t : Program D} {p : Process D}
  {acts : List ProgramAction}

/-! ## What a step can do -/

/-- The changes that an action can make. -/
inductive Change (c : SomConfig D) : Program D → ProgramAction → Program D → Prop
  | returned {call next : ConstructorCall} {signal : Signal} (next_eq : call.next = some next) :
      Change c (constructing call signal) (.returned true) (constructing next signal)
  | finished {call : ConstructorCall} {signal : Signal} (next_eq : call.next = none) :
      Change c (constructing call signal) (.returned true)
        (constructed { Process.boot with signal := signal })
  | asserted {call : ConstructorCall} {signal : Signal} :
      Change c (constructing call signal) (.returned false) (asserted call)
  | terminated {call : ConstructorCall} {signal : Signal} :
      Change c (constructing call signal) .thrown terminated
  | raised {call : ConstructorCall} :
      Change c (constructing call .awaited) .raise (constructing call .raised)
  | process {p q : Process D} {a : ProcessAction} (step : p.step c a = some q) :
      Change c (constructed p) (.process a) (constructed q)

theorem change_of_step {a : ProgramAction} (h : step c s a = some t) : Change c s a t := by
  unfold step at h
  split at h
  · next call signal =>
    split at h
    · next next hnext => exact Option.some.inj h ▸ .returned hnext
    · next hnext => exact Option.some.inj h ▸ .finished hnext
  · exact Option.some.inj h ▸ .asserted
  · exact Option.some.inj h ▸ .terminated
  · exact Option.some.inj h ▸ .raised
  · next p a =>
    obtain ⟨q, hq, rfl⟩ := Option.map_eq_some_iff.mp h
    exact .process hq
  · cases h

/-! ## The process of the program -/

/-- What the actions of a run are to the process. -/
def processActions (acts : List ProgramAction) : List ProcessAction :=
  acts.filterMap ProgramAction.process?

theorem processActions_snoc (acts : List ProgramAction) (a : ProgramAction) :
    processActions (acts ++ [a]) = processActions acts ++ a.process?.toList := by
  rw [processActions, List.filterMap_append, ← processActions]
  cases a <;> rfl

/-- What is kept: the process takes the actions that are its own, of which it knows in the
constructor SIGINT only; and where an assertion or an exception has ended the constructor, it has
taken none. -/
def Follows (c : SomConfig D) (acts : List ProgramAction) : Program D → Prop
  | constructing _ signal => .returned false ∉ acts ∧ (∀ a, .process a ∉ acts) ∧
      run (Process.step c) Process.boot (processActions acts) =
        some { Process.boot with signal := signal }
  | asserted _ => .returned false ∈ acts ∧ ∀ a, .process a ∉ acts
  | terminated => .returned false ∉ acts ∧ ∀ a, .process a ∉ acts
  | constructed p => .returned false ∉ acts ∧
      run (Process.step c) Process.boot (processActions acts) = some p

theorem follows_boot : Follows c [] (boot : Program D) := ⟨by simp, by simp, rfl⟩

theorem Follows.change {a : ProgramAction} (h : Follows c acts s) (hchange : Change c s a t) :
    Follows c (acts ++ [a]) t := by
  cases hchange with
  | returned =>
    obtain ⟨hreturned, hprocess, hrun⟩ := h
    refine ⟨by simp [hreturned], by simp [hprocess], ?_⟩
    rw [processActions_snoc]
    simpa [ProgramAction.process?] using hrun
  | finished =>
    obtain ⟨hreturned, -, hrun⟩ := h
    refine ⟨by simp [hreturned], ?_⟩
    rw [processActions_snoc]
    simpa [ProgramAction.process?] using hrun
  | asserted => exact ⟨by simp, by simp [h.2.1]⟩
  | terminated => exact ⟨by simp [h.1], by simp [h.2.1]⟩
  | raised =>
    obtain ⟨hreturned, hprocess, hrun⟩ := h
    refine ⟨by simp [hreturned], by simp [hprocess], ?_⟩
    -- SIGINT is noted, whether or not the io service runs
    rw [processActions_snoc, run_append, hrun]
    rfl
  | process hstep =>
    obtain ⟨hreturned, hrun⟩ := h
    refine ⟨by simp [hreturned], ?_⟩
    rw [processActions_snoc, run_append, hrun]
    show (Process.step c _ _).bind _ = _
    rw [hstep]
    rfl

theorem follows_of_run (h : run (step c) boot acts = some s) : Follows c acts s :=
  run_history_induction (P := fun acts s => Follows c acts s) follows_boot
    (fun _ _ _ _ _ hs hstep => hs.change (change_of_step hstep)) h

/-- Past the constructor the program is a process. -/
theorem process_of_run (h : run (step c) boot acts = some (constructed p)) :
    run (Process.step c) Process.boot (processActions acts) = some p := (follows_of_run h).2

/-! ## How the program ends -/

theorem exists_raisesSignal (h : .raise ∈ processActions acts) : ∃ a ∈ acts, a.RaisesSignal :=
  List.mem_filterMap.mp h

theorem mem_processActions {a : ProcessAction} (hne : a ≠ .raise) :
    a ∈ processActions acts ↔ .process a ∈ acts := by
  rw [processActions, List.mem_filterMap]
  constructor
  · rintro ⟨b, hb, ha⟩
    cases b with
    | returned value => cases ha
    | thrown => cases ha
    | raise => exact absurd (Option.some.inj ha).symm hne
    | process a' => exact Option.some.inj ha ▸ hb
  · exact fun h => ⟨_, h, rfl⟩

/-- A process that has taken no step of its own has made no assertion. -/
theorem not_assertsStopped (h : ∀ a, .process a ∉ acts) :
    ¬ Process.AssertsStopped c (processActions acts) := by
  rintro ⟨pre, post, p, hacts, -⟩
  have hmem : ProcessAction.goOn ∈ processActions acts := by simp [hacts]
  exact h _ ((mem_processActions (by simp)).mp hmem)

/-- **Assertions.** The program is ended by an assertion exactly when a call of the constructor has
returned false, the flush has timed out, or the assertion of `runMainLoop` has found the io service
stopped. -/
theorem asserted_iff_of_run (h : run (step c) boot acts = some s) :
    s.Asserted ↔ .returned false ∈ acts ∨ .process (.timeout .flush) ∈ acts ∨
      Process.AssertsStopped c (processActions acts) := by
  have hfollows := follows_of_run h
  have hprocess {p : Process D} (hreturned : .returned false ∉ acts)
      (hrun : run (Process.step c) Process.boot (processActions acts) = some p) :
      p.main = .failed ↔ .returned false ∈ acts ∨ .process (.timeout .flush) ∈ acts ∨
        Process.AssertsStopped c (processActions acts) := by
    rw [Process.failed_iff_of_run hrun, mem_processActions (by simp)]
    exact ⟨Or.inr, fun h => h.resolve_left hreturned⟩
  cases s with
  | constructing call signal =>
    refine Iff.trans ?_ (hprocess hfollows.1 hfollows.2.2)
    exact iff_of_false id fun hmain => by cases hmain
  | asserted call => exact iff_of_true trivial (Or.inl hfollows.1)
  | terminated =>
    refine iff_of_false id ?_
    rintro (hreturned | hflush | hstopped)
    · exact hfollows.1 hreturned
    · exact hfollows.2 _ hflush
    · exact not_assertsStopped hfollows.2 hstopped
  | constructed p => exact hprocess hfollows.1 hfollows.2

/-- The constructor returns, and SIGINT arrives during the first read of the main loop. -/
def interrupted : List ProgramAction :=
  List.replicate 3 (.returned true) ++ Process.interrupted.map .process

/-- The serial port cannot be opened. -/
example : (run (step SomConfig.level) boot [.returned true, .returned false]).map
    (fun s : Program ℚ => match s with | asserted call => some call | _ => none) =
      some (some .open) := rfl

end Program

end RcPlane
