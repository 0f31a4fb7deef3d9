import RcPlane.Som.Reports

/-!
# The process

`main` starts a thread that runs the io service, performs the handshake and the main loop, and
leaves through the destructor of the controller, which waits for the thread to end. The io service
runs as long as there is work: what `m_worker` holds, the wait for SIGINT, and every operation
until its handler has ended. The handler of SIGINT resets `m_worker`, and the service stops when
the last work ends. Once it has stopped no handler runs, so that every operation begun after that
times out; what the port makes of the bytes of such a write is not followed up.

## Main definitions

* `MainThread`, `IoService`, `Signal`: where the two threads and the signal stand
* `IoService.Runs`, `IoService.next`: what is assumed of `io_service::run`, and the service that
  does it
* `Process`, `Process.work`: the process, and the work of its io service
* `Process.goOn`, `Process.proceed`, `Process.leave`: the steps of the main thread
* `ProcessAction`, `Process.step`: what can happen
* `Process.Coherent`, `Process.Placed`: what is kept
* `Process.AssertsStopped`: the assertion of `runMainLoop` has failed

## Main results

* `Process.som_of_run`: the SoM runs as it does by itself
* `Process.coherent_of_run`, `Process.placed_of_run`: every run keeps both
* `Process.failed_iff_of_run`: which assertions can end it
-/

namespace RcPlane

open Foundation

/-! ## The process -/

/-- What `main` returns. -/
inductive ExitCode
  | EXIT_SUCCESS
  | EXIT_FAILURE
deriving DecidableEq, Repr

/-- The main thread, around its serial operations: `startIoThread` has not been called, or the next
operation has not begun, or it has and its value is waited for. The assertion of `runMainLoop` and
its loop condition are steps of their own. The destructor waits for the io thread, and then `main`
has returned; a failed assertion exits at once. -/
inductive MainThread
  | constructed
  | starting
  | waiting
  | asserting
  | checking
  | joining (code : ExitCode)
  | returned (code : ExitCode)
  | failed
deriving DecidableEq, Repr

/-- The main thread is in the program, between `startIoThread` and the destructor. -/
def MainThread.Inside : MainThread → Prop
  | constructed | joining _ | returned _ => False
  | starting | waiting | asserting | checking | failed => True

/-- The io service has not run yet, or is run by its thread, or has stopped for good. -/
inductive IoService
  | idle
  | running
  | stopped
deriving DecidableEq, Repr

namespace IoService

/-- The io service at the end of some work, given the work that is left. -/
def next : IoService → ℕ → IoService
  | running, 0 => stopped
  | io, _ => io

/-- What is assumed of `io_service::run`: it returns when there is no work left and not before, and
the service has stopped then. -/
structure Runs (f : IoService → ℕ → IoService) : Prop where
  idle : ∀ work, f idle work = idle
  busy : ∀ work, 0 < work → f running work = running
  exhausted : f running 0 = stopped
  stopped : ∀ work, f stopped work = stopped

theorem runs_next : Runs next where
  idle _ := rfl
  busy work h := by
    cases work with
    | zero => cases h
    | succ work => rfl
  exhausted := rfl
  stopped _ := rfl

variable {f : IoService → ℕ → IoService}

/-- The service stays as it is, or stops for want of work. -/
theorem Runs.cases (h : Runs f) (io : IoService) (work : ℕ) :
    (f io work = io ∧ (io = .running → 0 < work)) ∨
      (f io work = .stopped ∧ io = .running ∧ work = 0) := by
  cases io with
  | idle => exact Or.inl ⟨h.idle work, fun hio => by cases hio⟩
  | running =>
    rcases work.eq_zero_or_pos with rfl | hpos
    · exact Or.inr ⟨h.exhausted, rfl, rfl⟩
    · exact Or.inl ⟨h.busy work hpos, fun _ => hpos⟩
  | stopped => exact Or.inl ⟨h.stopped work, fun hio => by cases hio⟩

/-- There is one such service, so that nothing else is assumed of it. -/
theorem Runs.eq_next (h : Runs f) : f = next := by
  funext io work
  rcases h.cases io work with ⟨heq, hbusy⟩ | ⟨heq, rfl, rfl⟩
  · rcases runs_next.cases io work with ⟨hnext, -⟩ | ⟨-, rfl, rfl⟩
    · rw [heq, hnext]
    · exact absurd (hbusy rfl) (Nat.lt_irrefl 0)
  · exact heq

end IoService

/-- SIGINT is waited for, or has been raised, or its handler has ended. -/
inductive Signal
  | awaited
  | raised
  | handled
deriving DecidableEq, Repr

/-- The SoM, its two threads, and what keeps the io service running. -/
structure Process (D : Type) where
  som : Som D
  main : MainThread := .constructed
  io : IoService := .idle
  signal : Signal := .awaited
  /-- `m_worker` holds its unit of work. -/
  worker : Bool := true
  /-- The handler of the operation that is waited for has not ended. -/
  operation : Bool := false
  /-- The number of operations whose call is over and whose handler has not ended. -/
  leftover : ℕ := 0

/-- What can happen: a step of the main thread, or the end of its wait without a value; a transfer
or the completion of the operation that is waited for, or its failure; the end of the handler of an
earlier operation; SIGINT, and the end of its handler. -/
inductive ProcessAction
  | goOn
  | timeout (o : SomTimeout)
  | send
  | receive (piece : List UInt8)
  | done
  | fail
  | retire
  | raise
  | handleSignal
deriving DecidableEq, Repr

/-- The operation under way still lacks something, so that its wait can time out. -/
def Som.Incomplete {D : Type} (c : SomConfig D) (s : Som D) : Prop :=
  match s.phase with
  | .flushing =>
    SerialController.untilSize c.handshakeTerminationStr s.serial.streamBuffer = none
  | .reading _ need => 0 < need
  | .writing _ left => left ≠ []
  | _ => False

instance {D : Type} (c : SomConfig D) (s : Som D) : Decidable (s.Incomplete c) := by
  obtain ⟨phase, serial, controller, consumed, sent, iterations⟩ := s
  cases phase with
  | flushing => exact decidable_of_iff _ Option.isNone_iff_eq_none
  | reading r need => exact Nat.decLt 0 need
  | writing w left => exact decidable_of_iff _ List.length_pos_iff
  | connected => exact .isFalse id
  | halted => exact .isFalse id

namespace Process

variable {D : Type}

/-- The controller is constructed. -/
def boot [Double D] : Process D where
  som := Som.boot

/-- The work of the io service. -/
def work (p : Process D) : ℕ :=
  p.worker.toNat + (if p.signal = .handled then 0 else 1) + p.operation.toNat + p.leftover

/-- The io service stops when it has run out of work. -/
def settle (p : Process D) : Process D := { p with io := p.io.next p.work }

section Settle

variable (p : Process D)

@[simp] theorem som_settle : p.settle.som = p.som := rfl

@[simp] theorem main_settle : p.settle.main = p.main := rfl

@[simp] theorem signal_settle : p.settle.signal = p.signal := rfl

@[simp] theorem worker_settle : p.settle.worker = p.worker := rfl

@[simp] theorem operation_settle : p.settle.operation = p.operation := rfl

@[simp] theorem leftover_settle : p.settle.leftover = p.leftover := rfl

end Settle

/-! ### The main thread -/

/-- `main` returns, and the destructor resets `m_worker`. -/
def leave (p : Process D) (code : ExitCode) : Process D :=
  settle { p with main := .joining code, worker := false }

/-- The call under way is over, whether or not its handler has ended, and the SoM is as given. -/
def endCall (p : Process D) (som : Som D) : Process D :=
  { p with som := som, operation := false, leftover := p.leftover + p.operation.toNat }

/-- What follows a call, given the SoM after it. -/
def proceed (p : Process D) (som : Som D) : Process D :=
  match p.som.phase, som.phase with
  | .flushing, .halted => { p.endCall som with main := .failed }
  | _, .halted => (p.endCall som).leave .EXIT_FAILURE
  -- an iteration is over
  | _, .reading .rcRx _ => { p.endCall som with main := .checking }
  | _, _ => { p.endCall som with main := .starting }

section Steps

variable [Double D] (c : SomConfig D)

/-- The main thread takes its next step, if it waits for nothing. -/
def goOn (p : Process D) : Option (Process D) :=
  match p.main with
  | .constructed => some { p with main := .starting, io := .running }
  | .starting =>
    match p.som.phase with
    | .connected => (p.som.done c).map fun som => { p with som := som, main := .asserting }
    | .halted => none
    | _ => some { p with main := .waiting, operation := true }
  | .asserting => some { p with main := if p.io = .stopped then .failed else .checking }
  | .checking =>
    some (if p.io = .stopped then p.leave .EXIT_SUCCESS else { p with main := .starting })
  | .joining code => if p.io = .stopped then some { p with main := .returned code } else none
  | _ => none

/-- The wait ends without a value. -/
def timeout (p : Process D) (o : SomTimeout) : Option (Process D) :=
  if p.main = .waiting then (p.som.timeout c o).map p.proceed else none

/-! ### The io thread -/

/-- The io thread works for the operation that is waited for. -/
def Serves (p : Process D) : Prop := p.main = .waiting ∧ p.io = .running ∧ p.operation = true

instance (p : Process D) : Decidable p.Serves := inferInstanceAs (Decidable (_ ∧ _ ∧ _))

/-- A transfer of the operation. -/
def transfer (p : Process D) (som : Option (Som D)) : Option (Process D) :=
  if p.Serves then som.map fun som => { p with som := som } else none

/-- The handler of the operation provides its value, and the wait ends. The main thread may wake up
later than that; but what it does until it begins its next operation reads nothing that the io
thread or SIGINT changes in the meantime, and takes work away at most, so that the io service stops
after the same steps whichever comes first. -/
def done (p : Process D) : Option (Process D) :=
  if p.Serves then (p.som.done c).map p.proceed else none

/-- The handler of the operation runs with an error, and the wait goes on. -/
def fail (p : Process D) : Option (Process D) :=
  if p.Serves ∧ p.som.Incomplete c then some (settle { p with operation := false }) else none

/-- The handler of an earlier operation ends. -/
def retire (p : Process D) : Option (Process D) :=
  match p.io, p.leftover with
  | .running, leftover + 1 => some (settle { p with leftover := leftover })
  | _, _ => none

/-- The handler of SIGINT ends, which has reset `m_worker`. -/
def handleSignal (p : Process D) : Option (Process D) :=
  match p.io, p.signal with
  | .running, .raised => some (settle { p with signal := .handled, worker := false })
  | _, _ => none

/-- The effect of an action, if it can be taken. -/
def step (p : Process D) : ProcessAction → Option (Process D)
  | .goOn => p.goOn c
  | .timeout o => p.timeout c o
  | .send => p.transfer (p.som.send.map Prod.snd)
  | .receive piece => p.transfer (p.som.receive c piece)
  | .done => p.done c
  | .fail => p.fail c
  | .retire => p.retire
  | .raise => if p.signal = .awaited then some { p with signal := .raised } else none
  | .handleSignal => p.handleSignal

/-! ## What a step can do -/

/-- The changes that an action can make. -/
inductive Change (p : Process D) : ProcessAction → Process D → Prop
  | started (main : p.main = .constructed) :
      Change p .goOn { p with main := .starting, io := .running }
  | begun (main : p.main = .starting) (connected : p.som.phase ≠ .connected)
      (halted : p.som.phase ≠ .halted) :
      Change p .goOn { p with main := .waiting, operation := true }
  | connected {som : Som D} (main : p.main = .starting) (phase : p.som.phase = .connected)
      (done : p.som.done c = some som) : Change p .goOn { p with som := som, main := .asserting }
  | aborted (main : p.main = .asserting) (io : p.io = .stopped) :
      Change p .goOn { p with main := .failed }
  | asserted (main : p.main = .asserting) (io : p.io ≠ .stopped) :
      Change p .goOn { p with main := .checking }
  | left (main : p.main = .checking) (io : p.io = .stopped) :
      Change p .goOn (p.leave .EXIT_SUCCESS)
  | entered (main : p.main = .checking) (io : p.io ≠ .stopped) :
      Change p .goOn { p with main := .starting }
  | joined {code : ExitCode} (main : p.main = .joining code) (io : p.io = .stopped) :
      Change p .goOn { p with main := .returned code }
  | timedOut {o : SomTimeout} {som : Som D} (main : p.main = .waiting)
      (timeout : p.som.timeout c o = some som) : Change p (.timeout o) (p.proceed som)
  | sent {b : UInt8} {som : Som D} (serves : p.Serves) (send : p.som.send = some (b, som)) :
      Change p .send { p with som := som }
  | received {piece : List UInt8} {som : Som D} (serves : p.Serves)
      (receive : p.som.receive c piece = some som) : Change p (.receive piece) { p with som := som }
  | completed {som : Som D} (serves : p.Serves) (done : p.som.done c = some som) :
      Change p .done (p.proceed som)
  | failed (serves : p.Serves) (incomplete : p.som.Incomplete c) :
      Change p .fail (settle { p with operation := false })
  | retired {leftover : ℕ} (io : p.io = .running) (eq : p.leftover = leftover + 1) :
      Change p .retire (settle { p with leftover := leftover })
  | raised (signal : p.signal = .awaited) : Change p .raise { p with signal := .raised }
  | handled (io : p.io = .running) (signal : p.signal = .raised) :
      Change p .handleSignal (settle { p with signal := .handled, worker := false })

variable {c} {p q : Process D} {a : ProcessAction}

theorem change_of_goOn (h : p.goOn c = some q) : Change c p .goOn q := by
  unfold goOn at h
  split at h
  · next hmain => exact Option.some.inj h ▸ .started hmain
  · next hmain =>
    split at h
    · next hphase =>
      obtain ⟨som, hdone, rfl⟩ := Option.map_eq_some_iff.mp h
      exact .connected hmain hphase hdone
    · cases h
    · next hconnected hhalted => exact Option.some.inj h ▸ .begun hmain hconnected hhalted
  · next hmain =>
    split_ifs at h with hio
    · exact Option.some.inj h ▸ .aborted hmain hio
    · exact Option.some.inj h ▸ .asserted hmain hio
  · next hmain =>
    split_ifs at h with hio
    · exact Option.some.inj h ▸ .left hmain hio
    · exact Option.some.inj h ▸ .entered hmain hio
  · next code hmain =>
    split_ifs at h with hio
    exact Option.some.inj h ▸ .joined hmain hio
  · cases h

theorem change_of_step (h : step c p a = some q) : Change c p a q := by
  cases a with
  | goOn => exact change_of_goOn h
  | timeout o =>
    simp only [step, timeout] at h
    split_ifs at h with hmain
    obtain ⟨som, htimeout, rfl⟩ := Option.map_eq_some_iff.mp h
    exact .timedOut hmain htimeout
  | send =>
    simp only [step, transfer] at h
    split_ifs at h with hserves
    obtain ⟨som, hsom, rfl⟩ := Option.map_eq_some_iff.mp h
    obtain ⟨⟨b, som⟩, hsend, rfl⟩ := Option.map_eq_some_iff.mp hsom
    exact .sent hserves hsend
  | receive piece =>
    simp only [step, transfer] at h
    split_ifs at h with hserves
    obtain ⟨som, hreceive, rfl⟩ := Option.map_eq_some_iff.mp h
    exact .received hserves hreceive
  | done =>
    simp only [step, done] at h
    split_ifs at h with hserves
    obtain ⟨som, hdone, rfl⟩ := Option.map_eq_some_iff.mp h
    exact .completed hserves hdone
  | fail =>
    simp only [step, fail] at h
    split_ifs at h with hfail
    exact Option.some.inj h ▸ .failed hfail.1 hfail.2
  | retire =>
    simp only [step, retire] at h
    split at h
    · next leftover hio hleftover => exact Option.some.inj h ▸ .retired hio hleftover
    · cases h
  | raise =>
    simp only [step] at h
    split_ifs at h with hsignal
    exact Option.some.inj h ▸ .raised hsignal
  | handleSignal =>
    simp only [step, handleSignal] at h
    split at h
    · next hio hsignal => exact Option.some.inj h ▸ .handled hio hsignal
    · cases h

end Steps

variable {c : SomConfig D} {p q : Process D} {a : ProcessAction}

/-- What follows a call depends on whether the handshake has failed, an iteration is over, or
another operation is next. -/
theorem proceed_cases (p : Process D) (som : Som D) :
    (p.som.phase = .flushing ∧ som.phase = .halted ∧
      p.proceed som = { p.endCall som with main := .failed }) ∨
    (som.phase = .halted ∧ p.proceed som = (p.endCall som).leave .EXIT_FAILURE) ∨
    (∃ need, som.phase = .reading .rcRx need ∧
      p.proceed som = { p.endCall som with main := .checking }) ∨
    (som.phase ≠ .halted ∧ (∀ need, som.phase ≠ .reading .rcRx need) ∧
      p.proceed som = { p.endCall som with main := .starting }) := by
  unfold proceed
  split
  · next hflushing hhalted => exact Or.inl ⟨hflushing, hhalted, rfl⟩
  · next hhalted _ => exact Or.inr (Or.inl ⟨hhalted, rfl⟩)
  · next need hphase => exact Or.inr (Or.inr (Or.inl ⟨need, hphase, rfl⟩))
  · next hhalted hreading _ =>
    exact Or.inr (Or.inr (Or.inr ⟨hhalted, fun need => hreading need, rfl⟩))

/-! ## The SoM of the process -/

@[simp] theorem som_proceed (p : Process D) (som : Som D) : (p.proceed som).som = som := by
  rcases proceed_cases p som with ⟨-, -, h⟩ | ⟨-, h⟩ | ⟨_, -, h⟩ | ⟨-, -, h⟩
  · rw [h]; rfl
  · rw [h, leave, som_settle]; rfl
  · rw [h]; rfl
  · rw [h]; rfl

@[simp] theorem signal_proceed (p : Process D) (som : Som D) :
    (p.proceed som).signal = p.signal := by
  rcases proceed_cases p som with ⟨-, -, h⟩ | ⟨-, h⟩ | ⟨_, -, h⟩ | ⟨-, -, h⟩
  · rw [h]; rfl
  · rw [h, leave, signal_settle]; rfl
  · rw [h]; rfl
  · rw [h]; rfl

/-- A step of the process is one of the SoM, or leaves the SoM alone. -/
theorem som_of_change [Double D] (h : Change c p a q) :
    q.som = p.som ∨ ∃ a, Som.step c p.som a = some q.som := by
  cases h with
  | connected _ _ hdone => exact Or.inr ⟨.done, hdone⟩
  | timedOut _ htimeout => exact Or.inr ⟨.timeout _, by rw [som_proceed]; exact htimeout⟩
  | sent _ hsend => exact Or.inr ⟨.send, by rw [Som.step, hsend]; rfl⟩
  | received _ hreceive => exact Or.inr ⟨.receive _, hreceive⟩
  | completed _ hdone => exact Or.inr ⟨.done, by rw [som_proceed]; exact hdone⟩
  | left => exact Or.inl (som_settle _)
  | failed => exact Or.inl (som_settle _)
  | retired => exact Or.inl (som_settle _)
  | handled => exact Or.inl (som_settle _)
  | _ => exact Or.inl rfl

/-- The SoM of a process runs as it does by itself. -/
theorem som_of_run [Double D] {acts : List ProcessAction} (h : run (step c) boot acts = some p) :
    ∃ acts', run (Som.step c) Som.boot acts' = some p.som := by
  refine run_induction (P := fun p : Process D => ∃ acts', run (Som.step c) Som.boot acts' =
    some p.som) (A := fun _ => True) ⟨[], rfl⟩ ?_ (fun _ _ => trivial) h
  rintro p a q - ⟨acts', hrun⟩ hstep
  rcases som_of_change (change_of_step hstep) with hsom | ⟨b, hb⟩
  · exact ⟨acts', hsom ▸ hrun⟩
  · refine ⟨acts' ++ [b], ?_⟩
    rw [run_append, hrun]
    show (Som.step c p.som b).bind _ = _
    rw [hb]
    rfl

theorem reported_of_run [Double D] {acts : List ProcessAction}
    (h : run (step c) boot acts = some p) : Som.Reported c p.som := by
  obtain ⟨acts', hrun⟩ := som_of_run h
  exact Som.reported_of_run hrun

/-! ## The io service and its work -/

/-- Where the threads, the signal and the work can stand together. -/
structure Controlled (p : Process D) : Prop where
  idle : p.io = .idle ↔ p.main = .constructed
  early : p.io = .idle → p.signal ≠ .handled
  stopped : p.io = .stopped → p.signal = .handled
  handled : p.signal = .handled → p.worker = false
  released : p.worker = false → p.signal = .handled ∨ ∃ code, p.main = .joining code
  operation : p.operation = true → p.main = .waiting
  joining : ∀ code, p.main = .joining code → p.worker = false
  returned : ∀ code, p.main = .returned code → p.io = .stopped

/-- The io service runs only as long as there is work. -/
structure Coherent (p : Process D) : Prop extends Controlled p where
  busy : p.io = .running → 0 < p.work

theorem settle_cases (p : Process D) :
    (p.settle = p ∧ (p.io = .running → 0 < p.work)) ∨
      (p.settle = { p with io := .stopped } ∧ p.io = .running ∧ p.work = 0) := by
  rcases IoService.runs_next.cases p.io p.work with ⟨hnext, hbusy⟩ | ⟨hnext, hio, hwork⟩
  · exact Or.inl ⟨congrArg (fun io => { p with io := io }) hnext, hbusy⟩
  · exact Or.inr ⟨congrArg (fun io => { p with io := io }) hnext, hio, hwork⟩

theorem signal_of_work (h : p.work = 0) : p.signal = .handled := by
  by_contra hsignal
  rw [work, if_neg hsignal] at h
  omega

/-- Whatever the io service does when work ends, it runs only as long as there is some. -/
theorem Controlled.settle (h : Controlled p) : Coherent p.settle := by
  rcases settle_cases p with ⟨hsettle, hbusy⟩ | ⟨hsettle, hio, hwork⟩
  · rw [hsettle]
    exact ⟨h, hbusy⟩
  · rw [hsettle]
    have hidle : p.main ≠ .constructed := fun hmain => by
      rw [h.idle.mpr hmain] at hio
      cases hio
    exact {
      idle := iff_of_false (fun hio => by cases hio) hidle
      early := fun hio => by cases hio
      stopped := fun _ => signal_of_work hwork
      handled := h.handled
      released := h.released
      operation := h.operation
      joining := h.joining
      returned := fun _ _ => rfl
      busy := fun hio => by cases hio }

/-- A call that is over has left its work behind, if it has not ended. -/
theorem work_endCall (p : Process D) (som : Som D) (main : MainThread) :
    { p.endCall som with main := main }.work = p.work := by
  show p.worker.toNat + (if p.signal = .handled then 0 else 1) + 0 +
    (p.leftover + p.operation.toNat) = p.work
  rw [work]
  omega

/-- The main thread goes on, inside the program. -/
theorem Coherent.of_inside (h : Coherent p) (hio : q.io = p.io) (hsignal : q.signal = p.signal)
    (hworker : q.worker = p.worker) (hwork : p.work ≤ q.work) (hfrom : p.main.Inside)
    (hto : q.main.Inside) (hoperation : q.operation = true → q.main = .waiting) : Coherent q where
  idle := by
    refine iff_of_false (fun hidle => ?_) fun hmain => ?_
    · rw [hio, h.idle] at hidle
      rwa [hidle] at hfrom
    · rwa [hmain] at hto
  early := by rw [hio, hsignal]; exact h.early
  stopped := by rw [hio, hsignal]; exact h.stopped
  handled := by rw [hworker, hsignal]; exact h.handled
  released hreset := by
    rw [hworker] at hreset
    rcases h.released hreset with hhandled | ⟨code, hmain⟩
    · exact Or.inl (hsignal.trans hhandled)
    · exact (hmain ▸ hfrom : (MainThread.joining code).Inside).elim
  operation := hoperation
  joining code hmain := (hmain ▸ hto : (MainThread.joining code).Inside).elim
  returned code hmain := (hmain ▸ hto : (MainThread.returned code).Inside).elim
  busy hrunning := (h.busy (hio ▸ hrunning)).trans_le hwork

theorem Coherent.leave (h : Coherent p) (hfrom : p.main.Inside) (hoperation : p.operation = false)
    (code : ExitCode) : Coherent (p.leave code) := by
  refine Controlled.settle {
    idle := iff_of_false (fun hio => ?_) fun hmain => by cases hmain
    early := h.early
    stopped := h.stopped
    handled := fun _ => rfl
    released := fun _ => Or.inr ⟨code, rfl⟩
    operation := fun hop => absurd (hoperation.symm.trans hop) (by decide)
    joining := fun _ _ => rfl
    returned := fun _ hmain => by cases hmain }
  rwa [h.idle.mp hio] at hfrom

/-- A call that is over leaves its work behind, if its handler has not ended. -/
theorem Coherent.endCall (h : Coherent p) (hmain : p.main = .waiting) (som : Som D)
    {main : MainThread} (hto : main.Inside) : Coherent { p.endCall som with main := main } := by
  refine h.of_inside rfl rfl rfl (work_endCall p som main).ge ?_ hto fun hop => by cases hop
  rw [hmain]
  trivial

theorem Coherent.proceed (h : Coherent p) (hmain : p.main = .waiting) (som : Som D) :
    Coherent (p.proceed som) := by
  rcases proceed_cases p som with ⟨-, -, heq⟩ | ⟨-, heq⟩ | ⟨_, -, heq⟩ | ⟨-, -, heq⟩
  · rw [heq]
    exact h.endCall hmain som trivial
  · rw [heq]
    have hover : Coherent { p.endCall som with main := .starting } := h.endCall hmain som trivial
    exact hover.leave trivial rfl .EXIT_FAILURE
  · rw [heq]
    exact h.endCall hmain som trivial
  · rw [heq]
    exact h.endCall hmain som trivial

theorem coherent_boot [Double D] : Coherent (boot : Process D) where
  idle := iff_of_true rfl rfl
  early _ h := by cases h
  stopped h := by cases h
  handled h := by cases h
  released h := by cases h
  operation h := by cases h
  joining _ h := by cases h
  returned _ h := by cases h
  busy h := by cases h

theorem Coherent.start (h : Coherent p) (hmain : p.main = .constructed) :
    Coherent { p with main := .starting, io := .running } where
  idle := iff_of_false (fun hio => by cases hio) fun hmain => by cases hmain
  early hio := by cases hio
  stopped hio := by cases hio
  handled := h.handled
  released hworker := by
    rcases h.released hworker with hsignal | ⟨code, hjoin⟩
    · exact Or.inl hsignal
    · rw [hmain] at hjoin
      cases hjoin
  operation hop := by
    rw [h.operation hop] at hmain
    cases hmain
  joining _ hmain := by cases hmain
  returned _ hmain := by cases hmain
  busy _ := Nat.pos_of_ne_zero fun hwork => h.early (h.idle.mpr hmain) (signal_of_work hwork)

/-- Every step keeps the io service to its work. -/
theorem Coherent.change [Double D] (h : Coherent p) (hchange : Change c p a q) : Coherent q := by
  have hinside {main : MainThread} (hmain : p.main = main) (hin : main.Inside) : p.main.Inside :=
    hmain ▸ hin
  -- outside of its wait the main thread has no operation
  have hfree {main : MainThread} (hmain : p.main = main) (hne : main ≠ .waiting) :
      p.operation = false := by
    by_contra hop
    exact hne (hmain ▸ h.operation (Bool.eq_true_of_not_eq_false hop))
  cases hchange with
  | started hmain => exact h.start hmain
  | begun hmain =>
    refine h.of_inside rfl rfl rfl ?_ (hinside hmain trivial) trivial fun _ => rfl
    rw [work, work, hfree hmain (by decide)]
    exact Nat.add_le_add_right (Nat.le_add_right _ _) _
  | connected hmain =>
    exact h.of_inside rfl rfl rfl le_rfl (hinside hmain trivial) trivial fun hop =>
      absurd ((hfree hmain (by decide)).symm.trans hop) (by decide)
  | aborted hmain =>
    exact h.of_inside rfl rfl rfl le_rfl (hinside hmain trivial) trivial fun hop =>
      absurd ((hfree hmain (by decide)).symm.trans hop) (by decide)
  | asserted hmain =>
    exact h.of_inside rfl rfl rfl le_rfl (hinside hmain trivial) trivial fun hop =>
      absurd ((hfree hmain (by decide)).symm.trans hop) (by decide)
  | left hmain => exact h.leave (hinside hmain trivial) (hfree hmain (by decide)) .EXIT_SUCCESS
  | entered hmain =>
    exact h.of_inside rfl rfl rfl le_rfl (hinside hmain trivial) trivial fun hop =>
      absurd ((hfree hmain (by decide)).symm.trans hop) (by decide)
  | joined hmain hio =>
    exact { h with
      idle := iff_of_false (fun hidle => by rw [hio] at hidle; cases hidle)
        fun hmain => by cases hmain
      released := fun _ => Or.inl (h.stopped hio)
      operation := fun hop => absurd ((hfree hmain (by simp)).symm.trans hop) (by decide)
      joining := fun _ hmain => by cases hmain
      returned := fun _ _ => hio }
  | timedOut hmain => exact h.proceed hmain _
  | sent => exact { h with }
  | received => exact { h with }
  | completed hserves => exact h.proceed hserves.1 _
  | failed hserves =>
    exact Controlled.settle { h with operation := fun hop => by cases hop }
  | retired => exact Controlled.settle { h with }
  | raised hsignal =>
    have hne : p.signal ≠ .handled := by
      rw [hsignal]
      decide
    exact {
      idle := h.idle
      early := fun _ hhandled => by cases hhandled
      stopped := fun hio => (hne (h.stopped hio)).elim
      handled := fun hhandled => by cases hhandled
      released := fun hworker => Or.inr ((h.released hworker).resolve_left hne)
      operation := h.operation
      joining := h.joining
      returned := h.returned
      busy := fun hio => by
        have hwork := h.busy hio
        rwa [work, if_neg hne] at hwork }
  | handled hio hsignal =>
    exact Controlled.settle {
      idle := h.idle
      early := fun hidle => by
        rw [hio] at hidle
        cases hidle
      stopped := fun _ => rfl
      handled := fun _ => rfl
      released := fun _ => Or.inl rfl
      operation := h.operation
      joining := fun _ _ => rfl
      returned := h.returned }

theorem coherent_of_run [Double D] {acts : List ProcessAction}
    (h : run (step c) boot acts = some p) : Coherent p :=
  run_induction (A := fun _ => True) coherent_boot
    (fun _ _ _ _ hp hstep => hp.change (change_of_step hstep)) (fun _ _ => trivial) h

/-! ## Where the main thread stands in the program -/

/-- The phase of the SoM goes with the place of the main thread. -/
def Placed (p : Process D) : Prop :=
  match p.main with
  | .constructed => p.som.phase = .flushing
  | .starting => p.som.phase ≠ .halted
  | .waiting => p.som.phase ≠ .halted ∧ p.som.phase ≠ .connected
  | .asserting => p.som.phase = .startRead .rcRx ∧ p.som.iterations = []
  | .checking => p.som.phase = .startRead .rcRx
  | .joining .EXIT_SUCCESS | .returned .EXIT_SUCCESS =>
    p.io = .stopped ∧ p.som.phase = .startRead .rcRx
  | .joining .EXIT_FAILURE | .returned .EXIT_FAILURE => p.som.phase = .halted
  | .failed => p.som.phase = .halted ∨
    p.io = .stopped ∧ p.som.phase = .startRead .rcRx ∧ p.som.iterations = []

/-- The end of a call leads to the start of another one, to the loop condition, or out. -/
theorem placed_proceed (p : Process D) {som : Som D} (hstarts : Som.Starts som.phase) :
    Placed (p.proceed som) := by
  rcases proceed_cases p som with ⟨-, hhalted, heq⟩ | ⟨hhalted, heq⟩ | ⟨need, hphase, heq⟩ |
    ⟨hhalted, -, heq⟩
  · rw [heq]
    exact Or.inl hhalted
  · rw [heq, Placed, leave, main_settle, som_settle]
    exact hhalted
  · rw [heq]
    show som.phase = _
    rw [hphase, hstarts _ _ hphase]
    rfl
  · rw [heq]
    exact hhalted

/-- What follows an operation that has timed out, if it is a read, starts it. -/
theorem starts_timeout [Double D] {s s' : Som D} {o : SomTimeout} (h : s.timeout c o = some s') :
    Som.Starts s'.phase := by
  rcases Som.timeout_eq_some h with ⟨-, -, rfl⟩ | ⟨r, need, -, -, rfl⟩ | ⟨w, b, left, -, -, rfl⟩
  · intro r need hphase
    cases hphase
  · exact Som.starts_finishRead s r {}
  · exact Som.starts_finishWrite s w false

/-- Work that ends does not move the main thread. -/
theorem Placed.settle (h : Placed p) : Placed p.settle := by
  rcases settle_cases p with ⟨hsettle, -⟩ | ⟨hsettle, hio, -⟩
  · rwa [hsettle]
  · rw [hsettle]
    obtain ⟨som, main, io, signal, worker, operation, leftover⟩ := p
    -- the places that tell where the io service is tell that it has stopped
    cases main with
    | joining code =>
      cases code with
      | EXIT_SUCCESS => exact ⟨rfl, h.2⟩
      | EXIT_FAILURE => exact h
    | returned code =>
      cases code with
      | EXIT_SUCCESS => exact ⟨rfl, h.2⟩
      | EXIT_FAILURE => exact h
    | failed => exact h.imp_right fun h => ⟨rfl, h.2⟩
    | _ => exact h

theorem placed_of_waiting (hmain : p.main = .waiting) (hhalted : p.som.phase ≠ .halted)
    (hconnected : p.som.phase ≠ .connected) : Placed p := by
  rw [Placed, hmain]
  exact ⟨hhalted, hconnected⟩

theorem Placed.change [Double D] (hreported : Som.Reported c p.som) (h : Placed p)
    (hchange : Change c p a q) : Placed q := by
  cases hchange with
  | started hmain =>
    rw [Placed, hmain] at h
    show p.som.phase ≠ .halted
    rw [h]
    exact fun hphase => by cases hphase
  | begun _ hconnected hhalted => exact ⟨hhalted, hconnected⟩
  | connected _ hphase hdone =>
    rcases Som.done_eq_some hdone with ⟨size, hphase', -⟩ | ⟨w, hphase', -⟩ | ⟨r, hphase', -⟩ |
      ⟨-, rfl⟩
    · exact absurd (hphase.symm.trans hphase') (by simp)
    · exact absurd (hphase.symm.trans hphase') (by simp)
    · exact absurd (hphase.symm.trans hphase') (by simp)
    · -- no iteration has been published before the first call of `sendTelemetry`
      refine ⟨rfl, (hreported.outside ?_).2.1⟩
      rw [Som.InMainLoop, hphase]
      exact not_false
  | aborted hmain hio =>
    rw [Placed, hmain] at h
    -- the assertion of `runMainLoop` fails
    exact Or.inr ⟨hio, h.1, h.2⟩
  | asserted hmain =>
    rw [Placed, hmain] at h
    exact h.1
  | left hmain hio =>
    rw [Placed, hmain] at h
    refine Placed.settle ?_
    exact ⟨hio, h⟩
  | entered hmain =>
    rw [Placed, hmain] at h
    show p.som.phase ≠ .halted
    rw [h]
    exact fun hphase => by cases hphase
  | @joined code hmain hio =>
    rw [Placed, hmain] at h
    cases code with
    | EXIT_SUCCESS => exact h
    | EXIT_FAILURE => exact h
  | timedOut _ htimeout => exact placed_proceed p (starts_timeout htimeout)
  | sent hserves hsend =>
    obtain ⟨w, left, -, rfl⟩ := Som.send_eq_some.mp hsend
    exact placed_of_waiting hserves.1 (by simp) (by simp)
  | received hserves hreceive =>
    rcases Som.receive_eq_some hreceive with ⟨hphase, -, rfl⟩ | ⟨r, need, hphase, -, rfl⟩
    · exact placed_of_waiting hserves.1 (by simp [hphase]) (by simp [hphase])
    · exact placed_of_waiting hserves.1 (by simp) (by simp)
  | completed _ hdone => exact placed_proceed p (Som.starts_done hdone)
  | failed => exact Placed.settle h
  | retired => exact Placed.settle h
  | raised => exact h
  | handled => exact Placed.settle h

theorem placed_of_run [Double D] {acts : List ProcessAction}
    (h : run (step c) boot acts = some p) : Placed p := by
  have hboot : Placed (boot : Process D) := (rfl : (Som.boot : Som D).phase = .flushing)
  refine (run_induction (P := fun p : Process D => Som.Reported c p.som ∧ Placed p)
    (A := fun _ => True) ⟨Som.reported_boot c, hboot⟩ ?_ (fun _ _ => trivial) h).2
  rintro p a q - ⟨hreported, hplaced⟩ hstep
  have hchange := change_of_step hstep
  refine ⟨?_, hplaced.change hreported hchange⟩
  rcases som_of_change hchange with hsom | ⟨b, hb⟩
  · exact hsom ▸ hreported
  · exact (Som.reported_invariant c).of_step hreported hb

/-! ## What ends the process -/

/-- Nothing but SIGINT ends the wait for it. -/
theorem raise_mem [Double D] {acts : List ProcessAction} (h : run (step c) boot acts = some p)
    (hsignal : p.signal ≠ .awaited) : .raise ∈ acts := by
  by_contra hraise
  refine hsignal (run_induction (P := fun p : Process D => p.signal = .awaited)
    (A := fun a => a ≠ .raise) rfl ?_ (fun a ha hne => hraise (by rwa [hne] at ha)) h)
  intro p a q ha hawaited hstep
  cases change_of_step hstep with
  | left => exact (signal_settle _).trans hawaited
  | failed => exact (signal_settle _).trans hawaited
  | retired => exact (signal_settle _).trans hawaited
  | raised => exact (ha rfl).elim
  | handled _ hraised => exact absurd (hawaited.symm.trans hraised) (by decide)
  | timedOut => exact (signal_proceed _ _).trans hawaited
  | completed => exact (signal_proceed _ _).trans hawaited
  | _ => exact hawaited

/-- Every iteration is published before the loop condition is evaluated. -/
theorem length_telemetry [Double D] {s : Som D} (h : Som.Reported c s)
    (hphase : s.phase = .startRead .rcRx) :
    s.controller.telemetry.length = s.iterations.length + 1 := by
  have hin : s.InMainLoop := by
    rw [Som.InMainLoop, hphase]
    trivial
  have hpublished : s.published = s.iterations := by
    rw [Som.published, hphase]
    rfl
  have hlength := congrArg List.length (h.messages hin)
  rwa [List.length_map, reports, List.length_cons, List.length_map, hpublished] at hlength

/-! ### Assertions -/

/-- An assertion fails when the flush times out, and when the assertion of `runMainLoop` finds the
io service stopped. -/
theorem failed_change [Double D] (hchange : Change c p a q) : q.main = .failed ↔
    p.main = .failed ∨ a = .timeout .flush ∨
      a = .goOn ∧ p.main = .asserting ∧ p.io = .stopped := by
  have hproceed {som : Som D} (hmain : p.main = .waiting)
      (hflush : p.som.phase = .flushing ∧ som.phase = .halted ↔ a = .timeout .flush) :
      (p.proceed som).main = .failed ↔
        p.main = .failed ∨ a = .timeout .flush ∨
          a = .goOn ∧ p.main = .asserting ∧ p.io = .stopped := by
    -- what follows a call fails only after the flush
    rw [hmain, ← hflush]
    rcases proceed_cases p som with ⟨hphase, hhalted, heq⟩ | ⟨hhalted, heq⟩ | ⟨_, hphase, heq⟩ |
      ⟨hhalted, -, heq⟩
    · simp [heq, hphase, hhalted]
    · by_cases hphase : p.som.phase = .flushing
      · simp [proceed, hphase, hhalted]
      · simp [heq, leave, hphase]
    · simp [heq, hphase]
    · simp [heq, hhalted]
  cases hchange with
  | aborted hmain hio => simp [hmain, hio]
  | asserted hmain hio => simp [hmain, hio]
  | timedOut hmain htimeout =>
    refine hproceed hmain ?_
    rcases Som.timeout_eq_some htimeout with ⟨rfl, hphase, rfl⟩ | ⟨r, need, rfl, hphase, -⟩ |
      ⟨w, b, left, rfl, hphase, -⟩
    · simp [hphase]
    · simp [hphase]
    · simp [hphase]
  | completed hserves hdone =>
    refine hproceed hserves.1 ?_
    rcases Som.done_eq_some hdone with ⟨size, -, -, rfl⟩ | ⟨w, hphase, -⟩ | ⟨r, hphase, -⟩ |
      ⟨hphase, -⟩
    · simp [Som.finishFlush]
    · simp [hphase]
    · simp [hphase]
    · simp [hphase]
  | started hmain => simp [hmain]
  | begun hmain => simp [hmain]
  | connected hmain => simp [hmain]
  | left hmain => simp [hmain, leave]
  | entered hmain => simp [hmain]
  | joined hmain => simp [hmain]
  | sent => simp
  | received => simp
  | failed => simp
  | retired => simp
  | raised => simp
  | handled => simp

/-- After a failed assertion nothing happens to the SoM. -/
theorem som_of_failed [Double D] (hmain : p.main = .failed) (hchange : Change c p a q) :
    q.som = p.som := by
  cases hchange with
  | connected hmain' => cases hmain.symm.trans hmain'
  | timedOut hmain' => cases hmain.symm.trans hmain'
  | sent hserves => cases hmain.symm.trans hserves.1
  | received hserves => cases hmain.symm.trans hserves.1
  | completed hserves => cases hmain.symm.trans hserves.1
  | left => exact som_settle _
  | failed => exact som_settle _
  | retired => exact som_settle _
  | handled => exact som_settle _
  | _ => rfl

theorem failed_of_run_of_failed [Double D] {acts : List ProcessAction} (hmain : p.main = .failed)
    (h : run (step c) p acts = some q) : q.main = .failed ∧ q.som = p.som :=
  run_induction (P := fun q : Process D => q.main = .failed ∧ q.som = p.som) (A := fun _ => True)
    ⟨hmain, rfl⟩ (fun _ _ _ _ hs hstep =>
      ⟨(failed_change (change_of_step hstep)).mpr (Or.inl hs.1),
        (som_of_failed hs.1 (change_of_step hstep)).trans hs.2⟩)
    (fun _ _ => trivial) h

/-- The state of a run before one of its actions, and after it. -/
theorem exists_of_run_append_cons [Double D] {pre post : List ProcessAction}
    (h : run (step c) p (pre ++ a :: post) = some q) : ∃ r r', run (step c) p pre = some r ∧
      step c r a = some r' ∧ run (step c) r' post = some q := by
  rw [run_append] at h
  obtain ⟨r, hpre, hrest⟩ := Option.bind_eq_some_iff.mp h
  obtain ⟨r', hstep, hpost⟩ := Option.bind_eq_some_iff.mp hrest
  exact ⟨r, r', hpre, hstep, hpost⟩

/-- In a run, the assertion of `runMainLoop` has found the io service stopped. -/
def AssertsStopped [Double D] (c : SomConfig D) (acts : List ProcessAction) : Prop :=
  ∃ pre post, ∃ p : Process D, acts = pre ++ .goOn :: post ∧ run (step c) boot pre = some p ∧
    p.main = .asserting ∧ p.io = .stopped

/-- After a flush that has timed out the process has exited, and nothing has been read or
written. -/
theorem failed_of_timeout_flush [Double D] {acts : List ProcessAction}
    (h : run (step c) boot acts = some p) (hflush : .timeout .flush ∈ acts) :
    p.main = .failed ∧ p.som.phase = .halted := by
  obtain ⟨pre, post, rfl⟩ := List.append_of_mem hflush
  obtain ⟨r, r', -, hstep, hpost⟩ := exists_of_run_append_cons h
  have hchange := change_of_step hstep
  obtain ⟨hmain, hsom⟩ :=
    failed_of_run_of_failed ((failed_change hchange).mpr (Or.inr (Or.inl rfl))) hpost
  refine ⟨hmain, ?_⟩
  rw [hsom]
  cases hchange with
  | timedOut _ htimeout =>
    rcases Som.timeout_eq_some htimeout with ⟨-, -, rfl⟩ | ⟨_, _, ho, -⟩ | ⟨_, _, _, ho, -⟩
    · rw [som_proceed]
    · cases ho
    · cases ho

/-- After the assertion of `runMainLoop` has failed the process has exited, with no iteration. -/
theorem failed_of_assertsStopped [Double D] {acts : List ProcessAction}
    (h : run (step c) boot acts = some p) (hstopped : AssertsStopped c acts) :
    p.main = .failed ∧ p.io = .stopped ∧ p.som.phase = .startRead .rcRx ∧
      p.som.iterations = [] := by
  obtain ⟨pre, post, r, rfl, hrun, hasserting, hio⟩ := hstopped
  obtain ⟨r₁, r', hpre, hstep, hpost⟩ := exists_of_run_append_cons h
  obtain rfl : r = r₁ := Option.some.inj (hrun.symm.trans hpre)
  have hchange := change_of_step hstep
  obtain ⟨hmain, hsom⟩ := failed_of_run_of_failed
    ((failed_change hchange).mpr (Or.inr (Or.inr ⟨rfl, hasserting, hio⟩))) hpost
  have hplaced := placed_of_run hpre
  rw [Placed, hasserting] at hplaced
  have hsom' : r'.som = r.som := by
    cases hchange with
    | connected hstarting => cases hasserting.symm.trans hstarting
    | left hchecking => cases hasserting.symm.trans hchecking
    | _ => rfl
  rw [hsom, hsom']
  refine ⟨hmain, ?_, hplaced⟩
  -- the phase tells which of the two assertions it was
  have hend := placed_of_run h
  rw [Placed, hmain] at hend
  rcases hend with hhalted | ⟨hio, -⟩
  · rw [hsom, hsom', hplaced.1] at hhalted
    cases hhalted
  · exact hio

/-- An assertion ends the process exactly when the flush has timed out or the assertion of
`runMainLoop` has found the io service stopped. -/
theorem failed_iff_of_run [Double D] {acts : List ProcessAction}
    (h : run (step c) boot acts = some p) :
    p.main = .failed ↔ .timeout .flush ∈ acts ∨ AssertsStopped c acts := by
  constructor
  · refine run_history_induction (P := fun acts (p : Process D) => p.main = .failed →
      .timeout .flush ∈ acts ∨ AssertsStopped c acts) (fun hmain => by cases hmain) ?_ h
    intro acts p a q hrun ih hstep hmain
    rcases (failed_change (change_of_step hstep)).mp hmain with hfailed | rfl |
      ⟨rfl, hasserting, hio⟩
    · -- it has been so before
      refine (ih hfailed).imp (List.mem_append_left _) ?_
      rintro ⟨pre, post, r, rfl, hr⟩
      exact ⟨pre, post ++ [a], r, by simp, hr⟩
    · exact Or.inl (by simp)
    · exact Or.inr ⟨acts, [], p, rfl, hrun, hasserting, hio⟩
  · rintro (hflush | hstopped)
    · exact (failed_of_timeout_flush h hflush).1
    · exact (failed_of_assertsStopped h hstopped).1

/-- SIGINT arrives during the first read of the main loop. The io service stops when that read has
completed, so that the rest of the iteration times out. -/
def interrupted : List ProcessAction :=
  [.goOn, .goOn, .receive [102, 108, 117, 115, 104, 13, 10], .done, .goOn, .send, .done, .goOn,
    .receive [1], .done, .goOn, .goOn, .goOn, .goOn, .raise, .handleSignal, .retire, .retire,
    .retire, .receive (List.replicate 9 0), .done, .retire, .goOn, .timeout .read, .goOn,
    .timeout .write, .goOn, .goOn]


end Process

end RcPlane
