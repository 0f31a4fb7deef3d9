import RcPlane.Som.Accounting
import RcPlane.Som.Reports
import RcPlane.Telemetry.MessageQueues

/-!
# From the iterations to the display

The SoM with its telemetry: a call of `sendTelemetry` sends its three messages before the program
goes on, and the receiver takes messages at any time. The SoM runs as it does by itself and the
queues as they do by themselves, so each message that the receiver holds is about the iteration
before its call, and a consistent round is about one iteration.

## Main definitions

* `Telemetry`, `TelemetryStep`: the SoM with the queues, and what can happen
* `Telemetry.step`: the steps

## Main results

* `Telemetry.som_of_run`, `Telemetry.queues_of_run`: the run of each of the two
* `Telemetry.displayed_of_run`: what the rounds are about
-/

namespace RcPlane

open Foundation

/-- The SoM, with its telemetry. -/
structure Telemetry (D : Type) (mqSize : ℕ) where
  som : Som D
  queues : TelemetryQueues D mqSize := {}

/-- What can happen: an action of the SoM, or a step of the sender or of the receiver. -/
inductive TelemetryStep
  | som (a : SomAction)
  | queues (a : TelemetryAction)
deriving DecidableEq, Repr

namespace TelemetryStep

/-- The action of the SoM. -/
def som? : TelemetryStep → Option SomAction
  | som a => some a
  | queues _ => none

/-- The step of the sender or of the receiver. -/
def queues? : TelemetryStep → Option TelemetryAction
  | som _ => none
  | queues a => some a

end TelemetryStep

namespace Telemetry

variable {D : Type} [Double D] {mqSize : ℕ}

/-- The handshake has not begun, and the queues are empty. -/
def boot : Telemetry D mqSize where
  som := Som.boot

/-- The effect of a step, if it can be taken. -/
def step (c : SomConfig D) (p : Telemetry D mqSize) : TelemetryStep → Option (Telemetry D mqSize)
  | .som a =>
    -- the program goes on once `sendTelemetry` has returned
    if p.queues.call = p.som.controller.telemetry.length then
      (p.som.step c a).map fun som => { p with som := som }
    else none
  | .queues .send =>
    p.som.controller.telemetry[p.queues.call]?.map fun messages =>
      { p with queues := p.queues.trySend fun _ => messages }
  | .queues .receive => p.queues.receive.map fun queues => { p with queues := queues }

variable {c : SomConfig D} {p q : Telemetry D mqSize}

/-! ## The two runs -/

/-- The SoM never takes back what it has published. -/
theorem telemetry_grows {a : TelemetryStep} (h : step c p a = some q) :
    p.som.controller.telemetry <+: q.som.controller.telemetry := by
  cases a with
  | som a =>
    simp only [step] at h
    split_ifs at h
    obtain ⟨som, hstep, rfl⟩ := Option.map_eq_some_iff.mp h
    rcases Som.telemetry_step hstep with htelemetry | ⟨-, rest, htelemetry⟩
    · exact htelemetry ▸ List.prefix_rfl
    · exact htelemetry ▸ List.prefix_append _ _
  | queues a =>
    cases a with
    | send =>
      obtain ⟨messages, -, rfl⟩ := Option.map_eq_some_iff.mp h
      exact List.prefix_rfl
    | receive =>
      obtain ⟨queues, -, rfl⟩ := Option.map_eq_some_iff.mp h
      exact List.prefix_rfl

/-- The SoM runs as it does by itself. -/
theorem som_of_run {acts : List TelemetryStep} (h : run (step c) boot acts = some p) :
    run (Som.step c) Som.boot (acts.filterMap TelemetryStep.som?) = some p.som := by
  refine run_project (f := Telemetry.som) (Q := fun _ => True) (fun _ _ _ _ _ => trivial) ?_ h
    trivial
  intro p a q hstep _
  cases a with
  | som a =>
    simp only [step] at hstep
    split_ifs at hstep
    obtain ⟨som, hsom, rfl⟩ := Option.map_eq_some_iff.mp hstep
    exact Or.inr ⟨a, rfl, hsom⟩
  | queues a =>
    cases a with
    | send =>
      obtain ⟨messages, -, rfl⟩ := Option.map_eq_some_iff.mp hstep
      exact Or.inl ⟨rfl, rfl⟩
    | receive =>
      obtain ⟨queues, -, rfl⟩ := Option.map_eq_some_iff.mp hstep
      exact Or.inl ⟨rfl, rfl⟩

/-- The calls send what the SoM publishes. -/
def Sends (telemetry : ℕ → DebugMessage × AttitudeMessage D × OnboardStateMessage)
    (p : Telemetry D mqSize) : Prop :=
  ∀ n messages, p.som.controller.telemetry[n]? = some messages → telemetry n = messages

variable {telemetry : ℕ → DebugMessage × AttitudeMessage D × OnboardStateMessage}

/-- The queues run as they do by themselves, if the calls send what the SoM publishes in the
end. -/
theorem queues_of_run {acts : List TelemetryStep} (h : run (step c) boot acts = some p)
    (hsends : p.Sends telemetry) :
    run (TelemetryQueues.step telemetry) {} (acts.filterMap TelemetryStep.queues?) =
      some p.queues := by
  refine run_project (f := Telemetry.queues) (Q := Sends telemetry) ?_ ?_ h hsends
  · -- what was published earlier is published in the end
    intro p a q hstep hsends n messages hn
    obtain ⟨rest, hrest⟩ := telemetry_grows hstep
    obtain ⟨hlt, -⟩ := List.getElem?_eq_some_iff.mp hn
    refine hsends n messages ?_
    rw [← hrest, List.getElem?_append_left hlt]
    exact hn
  · intro p a q hstep hsends
    cases a with
    | som a =>
      simp only [step] at hstep
      split_ifs at hstep
      obtain ⟨som, -, rfl⟩ := Option.map_eq_some_iff.mp hstep
      exact Or.inl ⟨rfl, rfl⟩
    | queues a =>
      right
      refine ⟨a, rfl, ?_⟩
      cases a with
      | send =>
        obtain ⟨messages, hmessages, rfl⟩ := Option.map_eq_some_iff.mp hstep
        -- the call under way sends the messages that were published for it
        have hcall : telemetry p.queues.call = messages := hsends _ _ hmessages
        show some (p.queues.trySend telemetry) = some (p.queues.trySend fun _ => messages)
        rw [TelemetryQueues.trySend, TelemetryQueues.nextMessage, hcall]
        rfl
      | receive =>
        obtain ⟨queues, hreceive, rfl⟩ := Option.map_eq_some_iff.mp hstep
        exact hreceive

/-! ## The display -/

/-- The call under way is one that the SoM has made, and otherwise none is under way. -/
def Underway (p : Telemetry D mqSize) : Prop :=
  p.queues.call < p.som.controller.telemetry.length ∨
    p.queues.call = p.som.controller.telemetry.length ∧ p.queues.next = .debug

omit [Double D] in
theorem underway_advance {s : TelemetryQueues D mqSize} {n : ℕ} (h : s.call < n) :
    s.advance.call < n ∨ s.advance.call = n ∧ s.advance.next = .debug := by
  unfold TelemetryQueues.advance
  split
  · exact Or.inl h
  · exact Or.inl h
  · -- the call is over
    exact (lt_or_eq_of_le (Nat.succ_le_of_lt h)).imp id fun heq => ⟨heq, rfl⟩

theorem underway_step {a : TelemetryStep} (h : p.Underway) (hstep : step c p a = some q) :
    q.Underway := by
  cases a with
  | som a =>
    have hlength := (telemetry_grows hstep).length_le
    simp only [step] at hstep
    split_ifs at hstep with hcall
    obtain ⟨som, -, rfl⟩ := Option.map_eq_some_iff.mp hstep
    have hnext : p.queues.next = .debug := by
      rcases h with hlt | ⟨-, hnext⟩
      · exact absurd hcall hlt.ne
      · exact hnext
    rw [← hcall] at hlength
    exact (lt_or_eq_of_le hlength).imp id fun heq => ⟨heq, hnext⟩
  | queues a =>
    cases a with
    | send =>
      obtain ⟨messages, hmessages, rfl⟩ := Option.map_eq_some_iff.mp hstep
      obtain ⟨hlt, -⟩ := List.getElem?_eq_some_iff.mp hmessages
      refine underway_advance ?_
      rcases TelemetryQueues.push_eq p.queues (p.queues.nextMessage fun _ => messages) with
        hpush | ⟨_, -, hpush⟩
      · rw [hpush]
        exact hlt
      · rw [hpush]
        exact hlt
    | receive =>
      obtain ⟨queues, hreceive, rfl⟩ := Option.map_eq_some_iff.mp hstep
      obtain ⟨hcall, hnext, -⟩ := TelemetryQueues.receive_eq_some hreceive
      show queues.call < _ ∨ queues.call = _ ∧ queues.next = _
      rw [hcall, hnext]
      exact h

theorem underway_of_run {acts : List TelemetryStep} (h : run (step c) boot acts = some p) :
    p.Underway :=
  run_induction (A := fun _ => True) (Or.inr ⟨rfl, rfl⟩)
    (fun _ _ _ _ hp hstep => underway_step hp hstep) (fun _ _ => trivial) h

/-- What is published, and anything after it. -/
def published (p : Telemetry D mqSize) (n : ℕ) :
    DebugMessage × AttitudeMessage D × OnboardStateMessage :=
  p.som.controller.telemetry.getD n ({}, noReport)

theorem sends_published (p : Telemetry D mqSize) : p.Sends p.published := by
  intro n messages hn
  rw [published, List.getD_eq_getElem?_getD, hn, Option.getD_some]

/-- A message that a queue has accepted is one that the SoM has published. -/
theorem getElem?_of_accepted {acts : List TelemetryStep} (h : run (step c) boot acts = some p)
    {t : Topic} {m : Sent D t} (hm : m ∈ p.queues.accepted t) :
    ∃ messages, p.som.controller.telemetry[m.call]? = some messages ∧
      m.message = Topic.select messages t := by
  have hordered := TelemetryQueues.ordered_of_run (queues_of_run h p.sends_published)
  have hlt : m.call < p.som.controller.telemetry.length := by
    rcases hordered.recent t m hm with hcall | ⟨hcall, hindex⟩
    · rcases underway_of_run h with hunderway | ⟨hunderway, -⟩
      · exact hcall.trans hunderway
      · exact hunderway ▸ hcall
    · rcases underway_of_run h with hunderway | ⟨-, hnext⟩
      · exact hcall ▸ hunderway
      · -- a call that is not under way has sent nothing
        rw [hnext] at hindex
        exact absurd hindex (Nat.not_lt_zero _)
  refine ⟨_, List.getElem?_eq_getElem hlt, ?_⟩
  rw [hordered.message t m hm, published, List.getD_eq_getElem?_getD,
    List.getElem?_eq_getElem hlt, Option.getD_some]

/-- **From the iterations to the display.** In every interleaving of the SoM, the sender and the
receiver, with queues of any size and whatever times out: the rounds take the calls of each queue in
order; each message of a round is the one published by its call and about the iteration before it;
and the messages of a consistent round are published together and about one iteration. -/
theorem displayed_of_run {acts : List TelemetryStep} (h : run (step c) boot acts = some p) :
    (∀ t : Topic, (p.queues.combined.map fun r => (r.get t).call).SortedLT) ∧
      ∀ r ∈ p.queues.combined,
        (p.som.controller.telemetry[r.debug.call]?.map Prod.fst = some r.debug.message ∧
          r.debug.message.mainLoopCounter = UInt32.ofNat r.debug.call) ∧
        (reports c p.som.published)[r.attitude.call]?.map Prod.fst = some r.attitude.message ∧
        (reports c p.som.published)[r.onboard.call]?.map Prod.snd = some r.onboard.message ∧
        (r.FromOneCall →
          p.som.controller.telemetry[r.debug.call]? =
              some (r.debug.message, r.attitude.message, r.onboard.message) ∧
            (reports c p.som.published)[r.debug.call]? =
              some (r.attitude.message, r.onboard.message)) := by
  have hordered := TelemetryQueues.ordered_of_run (queues_of_run h p.sends_published)
  have hreported := Som.reported_of_run (som_of_run h)
  constructor
  · intro t
    obtain ⟨rest, hrest⟩ := hordered.conserved.calls_accepted t
    have hsorted := hordered.sorted t
    rw [hrest, List.sortedLT_iff_pairwise] at hsorted
    exact List.sortedLT_iff_pairwise.mpr (List.pairwise_append.mp hsorted).1
  · intro r hr
    -- what a round took from a queue, the queue had accepted
    have haccepted : ∀ t, r.get t ∈ p.queues.accepted t := by
      intro t
      rw [hordered.conserved t, TelemetryQueues.received]
      exact List.mem_append_left _ (List.mem_append_left _ (List.mem_map_of_mem hr))
    have hpublished : ∀ t : Topic, ∃ messages,
        p.som.controller.telemetry[(r.get t).call]? = some messages ∧
          (r.get t).message = Topic.select messages t :=
      fun t => getElem?_of_accepted h (haccepted t)
    obtain ⟨messages, hdebug, hdebugMessage⟩ : ∃ messages,
        p.som.controller.telemetry[r.debug.call]? = some messages ∧
          r.debug.message = messages.1 := hpublished .debug
    obtain ⟨attitude, hattitude, hattitudeMessage⟩ : ∃ messages,
        p.som.controller.telemetry[r.attitude.call]? = some messages ∧
          r.attitude.message = messages.2.1 := hpublished .attitude
    obtain ⟨onboard, honboard, honboardMessage⟩ : ∃ messages,
        p.som.controller.telemetry[r.onboard.call]? = some messages ∧
          r.onboard.message = messages.2.2 := hpublished .onboard
    obtain ⟨hcounter, hreport⟩ := hreported.getElem?_telemetry hdebug
    obtain ⟨-, hattitudeReport⟩ := hreported.getElem?_telemetry hattitude
    obtain ⟨-, honboardReport⟩ := hreported.getElem?_telemetry honboard
    refine ⟨⟨?_, ?_⟩, ?_, ?_, ?_⟩
    · exact (congrArg (Option.map Prod.fst) hdebug).trans (congrArg some hdebugMessage.symm)
    · exact (congrArg DebugMessage.mainLoopCounter hdebugMessage).trans hcounter
    · exact (congrArg (Option.map Prod.fst) hattitudeReport).trans
        (congrArg some hattitudeMessage.symm)
    · exact (congrArg (Option.map Prod.snd) honboardReport).trans
        (congrArg some honboardMessage.symm)
    · rintro ⟨hattitudeCall, honboardCall⟩
      -- the three messages are those of the call that published the first one
      rw [hattitudeCall, hdebug] at hattitude
      rw [honboardCall, hdebug] at honboard
      obtain rfl := Option.some.inj hattitude
      obtain rfl := Option.some.inj honboard
      have hmessages : messages.2 = (r.attitude.message, r.onboard.message) :=
        Prod.ext hattitudeMessage.symm honboardMessage.symm
      exact ⟨hdebug.trans (congrArg some (Prod.ext hdebugMessage.symm hmessages)),
        hreport.trans (congrArg some hmessages)⟩

/-- One iteration, whose report is sent and received after that of the first call. -/
def twoRounds : List TelemetryStep :=
  SomAction.acknowledged.map .som ++ [.queues .send, .queues .send, .queues .send] ++
    (SomAction.iteration 0x80).map .som ++
    [.queues .send, .queues .receive, .queues .send, .queues .receive, .queues .send,
      .queues .receive, .queues .receive, .queues .receive, .queues .receive]

theorem displayed_twoRounds :
    ∃ p : Telemetry ℚ 2, run (step SomConfig.level) boot twoRounds = some p ∧
      p.queues.combined.length = 2 ∧ ∀ r ∈ p.queues.combined,
        r.FromOneCall ∧
          p.som.controller.telemetry[r.debug.call]? =
              some (r.debug.message, r.attitude.message, r.onboard.message) ∧
            (reports SomConfig.level p.som.published)[r.debug.call]? =
              some (r.attitude.message, r.onboard.message) := by
  have hrun : run (step SomConfig.level) (boot : Telemetry ℚ 2) twoRounds = some _ := rfl
  refine ⟨_, hrun, rfl, fun r hr => ?_⟩
  have hone : r.FromOneCall := by
    rcases List.mem_cons.mp hr with rfl | hr
    · exact ⟨rfl, rfl⟩
    · obtain rfl := List.mem_singleton.mp hr
      exact ⟨rfl, rfl⟩
  exact ⟨hone, ((displayed_of_run hrun).2 r hr).2.2.2 hone⟩

end Telemetry

end RcPlane
