import RcPlane.Som.Lifecycle

/-!
# Shutting down

Once the io service has stopped, the main thread is left with the operations of the iteration or
of the handshake it is in, and each of them times out. Until then nothing forces the service to
stop: the handler of SIGINT takes work away, but the last handler of an operation may always end
after the next operation has begun.

## Main definitions

* `Process.Over`: the process has ended
* `SomPhase.operations`, `Process.remaining`: what is left to do after the service has stopped
* `Process.Ready`: what has to be waited for can time out
* `Process.Hangs`: nothing but SIGINT can happen

## Main results

* `Process.shutdown_of_stopped`: what a stopped io service leads to
* `Process.progress_of_run`: where the process can stand still
* `Process.exit_after_raise`: SIGINT always lets the process end
* `Process.iterations_after_handler`: and never makes it
-/

namespace RcPlane

open Foundation

/-! ## What is left to do -/

/-- The operations left before the main thread leaves or evaluates its loop condition, if every one
of them times out. -/
def SomPhase.operations {D : Type} (c : SomConfig D) : SomPhase → ℕ
  | .flushing => 1
  | .writing _ _ => 1
  | .reading (.handshake attempt) _ => c.handshakeAttempts - attempt
  | .reading .rcRx _ => 3
  | .reading (.imu _) _ => 2
  | .connected => 0
  | .halted => 0

namespace Process

variable {D : Type} {c : SomConfig D} {p q : Process D} {a : ProcessAction}

/-- The process has ended. -/
def Over (p : Process D) : Prop :=
  match p.main with
  | .returned _ | .failed => True
  | _ => False

theorem io_settle (hio : p.io = .stopped) : p.settle.io = .stopped := by
  show p.io.next p.work = .stopped
  rw [hio, IoService.runs_next.stopped]

theorem io_leave (hio : p.io = .stopped) (code : ExitCode) : (p.leave code).io = .stopped :=
  io_settle hio

theorem io_proceed (hio : p.io = .stopped) (som : Som D) : (p.proceed som).io = .stopped := by
  rcases proceed_cases p som with ⟨-, -, heq⟩ | ⟨-, heq⟩ | ⟨_, -, heq⟩ | ⟨-, -, heq⟩
  · rwa [heq]
  · rw [heq]
    exact @io_leave D (p.endCall som) hio _
  · rwa [heq]
  · rwa [heq]

variable (c) in
/-- The steps left once the io service has stopped. -/
def remaining (p : Process D) : ℕ :=
  match p.main with
  | .starting => 2 * p.som.phase.operations c + 4
  | .waiting => 2 * p.som.phase.operations c + 3
  | .asserting => 2
  | .checking => 2
  | .joining _ => 1
  | .constructed => 0
  | .returned _ => 0
  | .failed => 0

theorem remaining_proceed (p : Process D) (som : Som D) :
    (som.phase = .halted ∧ remaining c (p.proceed som) ≤ 1) ∨
      (∃ need, som.phase = .reading .rcRx need ∧ remaining c (p.proceed som) = 2) ∨
      (som.phase ≠ .halted ∧ (∀ need, som.phase ≠ .reading .rcRx need) ∧
        remaining c (p.proceed som) = 2 * som.phase.operations c + 4) := by
  rcases proceed_cases p som with ⟨-, hhalted, heq⟩ | ⟨hhalted, heq⟩ | ⟨need, hphase, heq⟩ |
    ⟨hhalted, hiteration, heq⟩
  · exact Or.inl ⟨hhalted, by rw [heq]; exact Nat.zero_le _⟩
  · refine Or.inl ⟨hhalted, ?_⟩
    rw [heq, remaining, leave, main_settle]
  · exact Or.inr (Or.inl ⟨need, hphase, by rw [heq]; rfl⟩)
  · exact Or.inr (Or.inr ⟨hhalted, hiteration, by rw [heq]; rfl⟩)

/-- An operation that times out is one less, unless an iteration begins after it. -/
theorem operations_timeout [Double D] {s s' : Som D} {o : SomTimeout}
    (h : s.timeout c o = some s') (hhalted : s'.phase ≠ .halted)
    (hiteration : ∀ need, s'.phase ≠ .reading .rcRx need) :
    s'.phase.operations c < s.phase.operations c := by
  rcases Som.timeout_eq_some h with ⟨-, -, rfl⟩ | ⟨r, need, -, hphase, rfl⟩ |
    ⟨w, b, left, -, hphase, rfl⟩
  · exact absurd rfl hhalted
  · rw [hphase]
    cases r with
    | handshake attempt =>
      -- the next attempt, if there is one
      change Som.attemptPhase c (attempt + 1) ≠ .halted at hhalted
      show (Som.attemptPhase c (attempt + 1)).operations c < c.handshakeAttempts - attempt
      unfold Som.attemptPhase at hhalted ⊢
      split_ifs at hhalted ⊢ with hlt
      · show c.handshakeAttempts - (attempt + 1) < _
        omega
      · exact absurd rfl hhalted
    | rcRx => exact Nat.lt_succ_self 2
    | imu rcRx => exact Nat.lt_succ_self 1
  · cases w with
    | handshake => exact absurd rfl hhalted
    | controlSurface imuPacket => exact absurd rfl (hiteration _)

theorem remaining_timeout [Double D] (hmain : p.main = .waiting) {o : SomTimeout} {som : Som D}
    (h : p.som.timeout c o = some som) : remaining c (p.proceed som) < remaining c p := by
  have hp : remaining c p = 2 * p.som.phase.operations c + 3 := by rw [remaining, hmain]
  rcases remaining_proceed (c := c) p som with ⟨-, hle⟩ | ⟨need, hphase, heq⟩ |
    ⟨hhalted, hiteration, heq⟩
  · omega
  · omega
  · have hlt := operations_timeout h hhalted hiteration
    omega

/-- Once the io service has stopped every step is one of the main thread, and is one less: it goes
on without the SoM, publishes before the main loop, or an operation times out. -/
theorem change_of_stopped [Double D] (hcoherent : Coherent p) (hio : p.io = .stopped)
    (hchange : Change c p a q) : q.io = .stopped ∧ remaining c q < remaining c p ∧
      ((q.som = p.som ∧ (q.main = .starting ∨ q.main = .waiting → p.main = .starting)) ∨
        (p.som.phase = .connected ∧ p.som.done c = some q.som ∧ q.main = .asserting) ∨
        ∃ o som, p.main = .waiting ∧ p.som.timeout c o = some som ∧ q = p.proceed som) := by
  have hrunning : p.io ≠ .running := by simp [hio]
  cases hchange with
  | started hmain =>
    rw [hcoherent.idle.mpr hmain] at hio
    cases hio
  | begun hmain =>
    refine ⟨hio, ?_, Or.inl ⟨rfl, fun _ => hmain⟩⟩
    simp [remaining, hmain]
  | connected hmain hphase hdone =>
    refine ⟨hio, ?_, Or.inr (Or.inl ⟨hphase, hdone, rfl⟩)⟩
    simp [remaining, hmain]
  | aborted hmain =>
    refine ⟨hio, ?_, Or.inl ⟨rfl, by simp⟩⟩
    simp [remaining, hmain]
  | asserted _ hne => exact absurd hio hne
  | left hmain =>
    refine ⟨io_leave hio _, ?_, Or.inl ⟨som_settle _, by simp [leave]⟩⟩
    simp [remaining, leave, hmain]
  | entered _ hne => exact absurd hio hne
  | joined hmain =>
    refine ⟨hio, ?_, Or.inl ⟨rfl, by simp⟩⟩
    simp [remaining, hmain]
  | timedOut hmain htimeout =>
    exact ⟨io_proceed hio _, remaining_timeout hmain htimeout,
      Or.inr (Or.inr ⟨_, _, hmain, htimeout, rfl⟩)⟩
  -- the io thread is gone
  | sent hserves => exact absurd hserves.2.1 hrunning
  | received hserves => exact absurd hserves.2.1 hrunning
  | completed hserves => exact absurd hserves.2.1 hrunning
  | failed hserves => exact absurd hserves.2.1 hrunning
  | retired hio' => exact absurd hio' hrunning
  | handled hio' => exact absurd hio' hrunning
  | raised hsignal =>
    rw [hcoherent.stopped hio] at hsignal
    cases hsignal

/-! ## The last iteration -/

/-- An operation that times out takes nothing in and does not complete the handshake. -/
theorem traffic_timeout [Double D] {s s' : Som D} {o : SomTimeout}
    (h : s.timeout c o = some s') : s'.serial = s.serial ∧ s'.consumed = s.consumed ∧
      s'.sent = s.sent ∧ s'.phase ≠ .connected := by
  rcases Som.timeout_eq_some h with ⟨-, -, rfl⟩ | ⟨r, need, -, -, rfl⟩ | ⟨w, b, left, -, -, rfl⟩
  · exact ⟨rfl, rfl, rfl, by simp⟩
  · obtain ⟨hconsumed, hserial, hsent⟩ := Som.traffic_finishRead (c := c) s r {}
    refine ⟨hserial, hconsumed, hsent, ?_⟩
    cases r with
    | handshake attempt =>
      show Som.attemptPhase c (attempt + 1) ≠ .connected
      unfold Som.attemptPhase
      split_ifs <;> simp [SomPhase.startRead]
    | rcRx => simp [Som.finishRead, Som.finishRcRxRead, SomPhase.startRead]
    | imu rcRx => simp [Som.finishRead, Som.finishImuRead]
  · obtain ⟨hconsumed, hserial, hsent⟩ := Som.traffic_finishWrite (c := c) s w false
    refine ⟨hserial, hconsumed, hsent, ?_⟩
    cases w with
    | handshake => simp [Som.finishWrite]
    | controlSurface imuPacket => simp [Som.finishWrite, SomPhase.startRead]

/-- The first read of an iteration has timed out, or was over when the io service stopped. -/
def Carried (p : Process D) (rcRx : ReadResult .rcRx) : Prop :=
  rcRx = ({} : ReadResult .rcRx) ∨ ∃ need, p.som.phase = .reading (.imu rcRx) need

/-- The iteration that was under way when the io service of `p` stopped is over: its second read
has timed out, and no other read is begun. -/
structure Completed (p q : Process D) (i : Iteration) : Prop where
  iterations : q.som.iterations = p.som.iterations ++ [i]
  imu : i.imu = ({} : ReadResult .imu)
  carried : p.Carried i.rcRx
  reading : ∀ r need, q.som.phase = .reading r need → q.main ≠ .starting ∧ q.main ≠ .waiting

/-- What has become of the process `p`, whose io service has stopped: nothing is taken in, and at
most the iteration under way is completed. -/
structure Drained (p q : Process D) : Prop where
  serial : q.som.serial = p.som.serial
  consumed : q.som.consumed = p.som.consumed
  sent : q.som.sent = p.som.sent
  connected : q.som.phase = .connected → p.som.phase = .connected
  iterations :
    (q.som.iterations = p.som.iterations ∧
      ∀ rcRx need, q.som.phase = .reading (.imu rcRx) need → p.Carried rcRx) ∨
    ∃ i, Completed p q i

theorem drained_self (p : Process D) : Drained p p where
  serial := rfl
  consumed := rfl
  sent := rfl
  connected := id
  iterations := Or.inl ⟨rfl, fun _ need hphase => Or.inr ⟨need, hphase⟩⟩

/-- The main thread goes on, and begins no read that it had not begun. -/
theorem Drained.of_som {r : Process D} (h : Drained p q) (hsom : r.som = q.som)
    (hmain : r.main = .starting ∨ r.main = .waiting → q.main = .starting) : Drained p r where
  serial := hsom ▸ h.serial
  consumed := hsom ▸ h.consumed
  sent := hsom ▸ h.sent
  connected := hsom ▸ h.connected
  iterations := by
    rw [hsom]
    refine h.iterations.imp_right ?_
    rintro ⟨i, hi⟩
    refine ⟨i, ?_, hi.imu, hi.carried, ?_⟩
    · rw [hsom]
      exact hi.iterations
    · intro read need hphase
      rw [hsom] at hphase
      have hne := (hi.reading read need hphase).1
      exact ⟨fun hr => hne (hmain (Or.inl hr)), fun hr => hne (hmain (Or.inr hr))⟩

/-- Before the first read of an iteration is the loop condition. -/
theorem main_proceed_of_rcRx (p : Process D) {som : Som D} {need : ℕ}
    (hphase : som.phase = .reading .rcRx need) : (p.proceed som).main = .checking := by
  rcases proceed_cases p som with ⟨-, hhalted, -⟩ | ⟨hhalted, -⟩ | ⟨_, -, heq⟩ | ⟨-, hne, -⟩
  · exact absurd (hphase.symm.trans hhalted) (by simp)
  · exact absurd (hphase.symm.trans hhalted) (by simp)
  · rw [heq]
  · exact absurd hphase (hne need)

/-- An operation that is not the second read of an iteration leaves the iterations alone. -/
theorem Drained.iterations_of_same (h : Drained p q) (hmain : q.main = .waiting) {som : Som D}
    (hsame : som.iterations = q.som.iterations)
    (himu : ∀ rcRx need, som.phase = .reading (.imu rcRx) need → p.Carried rcRx)
    (hreading : ∀ r need, som.phase = .reading r need →
      (q.proceed som).main = .checking ∨ ∃ r need, q.som.phase = .reading r need) :
    ((q.proceed som).som.iterations = p.som.iterations ∧
      ∀ rcRx need, (q.proceed som).som.phase = .reading (.imu rcRx) need → p.Carried rcRx) ∨
      ∃ i, Completed p (q.proceed som) i := by
  rw [som_proceed, hsame]
  rcases h.iterations with ⟨hiterations, -⟩ | ⟨i, hi⟩
  · exact Or.inl ⟨hiterations, himu⟩
  · refine Or.inr ⟨i, ?_, hi.imu, hi.carried, ?_⟩
    · rw [som_proceed, hsame, hi.iterations]
    · intro r need hphase
      rw [som_proceed] at hphase
      rcases hreading r need hphase with hchecking | ⟨r', need', hphase'⟩
      · simp [hchecking]
      · exact absurd hmain (hi.reading r' need' hphase').2

theorem Drained.timedOut [Double D] (h : Drained p q) (hmain : q.main = .waiting) {o : SomTimeout}
    {som : Som D} (htimeout : q.som.timeout c o = some som) : Drained p (q.proceed som) := by
  obtain ⟨hserial, hconsumed, hsent, hconnected⟩ := traffic_timeout htimeout
  refine ⟨?_, ?_, ?_, ?_, ?_⟩
  · rw [som_proceed, hserial, h.serial]
  · rw [som_proceed, hconsumed, h.consumed]
  · rw [som_proceed, hsent, h.sent]
  · rw [som_proceed]
    exact fun hphase => absurd hphase hconnected
  rcases Som.timeout_eq_some htimeout with ⟨-, hphase, rfl⟩ | ⟨r, need, -, hphase, rfl⟩ |
    ⟨w, b, left, -, hphase, rfl⟩
  · exact h.iterations_of_same hmain rfl (fun _ _ hhalted => by cases hhalted)
      fun _ _ hhalted => by cases hhalted
  · cases r with
    | handshake attempt =>
      refine h.iterations_of_same hmain rfl (fun rcRx n hattempt => ?_) fun _ _ _ =>
        Or.inr ⟨_, _, hphase⟩
      change Som.attemptPhase c (attempt + 1) = _ at hattempt
      unfold Som.attemptPhase at hattempt
      split_ifs at hattempt
      cases hattempt
    | rcRx =>
      refine h.iterations_of_same hmain rfl (fun rcRx n himu => ?_) fun _ _ _ =>
        Or.inr ⟨_, _, hphase⟩
      cases himu
      exact Or.inl rfl
    | imu rcRx =>
      -- the iteration is over, if it was under way when the io service stopped
      right
      rcases h.iterations with ⟨hiterations, hcarried⟩ | ⟨i, hi⟩
      · obtain ⟨reply, hreply⟩ : ∃ reply, (Som.finishRead c q.som (.imu rcRx) {}).iterations =
            q.som.iterations ++ [⟨rcRx, {}, reply⟩] := ⟨_, rfl⟩
        refine ⟨⟨rcRx, {}, reply⟩, ?_, rfl, hcarried rcRx _ hphase, fun r n hwriting => ?_⟩
        · rw [som_proceed, hreply, hiterations]
        · rw [som_proceed] at hwriting
          cases hwriting
      · exact absurd hmain (hi.reading _ _ hphase).2
  · cases w with
    | handshake =>
      exact h.iterations_of_same hmain rfl (fun _ _ hhalted => by cases hhalted)
        fun _ _ hhalted => by cases hhalted
    | controlSurface imuPacket =>
      have hrcRx : (Som.finishWrite c q.som (.controlSurface imuPacket) false).phase =
          .reading .rcRx 9 := rfl
      exact h.iterations_of_same hmain rfl (fun _ _ himu => by cases himu)
        fun _ _ _ => Or.inl (main_proceed_of_rcRx q hrcRx)

/-- Every step of the main thread keeps it so. -/
theorem Drained.change [Double D] (h : Drained p q) (hcoherent : Coherent q)
    (hio : q.io = .stopped) {r : Process D} (hchange : Change c q a r) : Drained p r := by
  obtain ⟨-, -, ⟨hsom, hmain⟩ | ⟨hphase, hdone, hasserting⟩ | ⟨o, som, hmain, htimeout, rfl⟩⟩ :=
    change_of_stopped hcoherent hio hchange
  · exact h.of_som hsom hmain
  · obtain ⟨hconnected, htraffic⟩ : r.som.phase = .startRead .rcRx ∧
        r.som.serial = q.som.serial ∧ r.som.consumed = q.som.consumed ∧
        r.som.sent = q.som.sent ∧ r.som.iterations = q.som.iterations := by
      rcases Som.done_eq_some hdone with ⟨size, hphase', -⟩ | ⟨w, hphase', -⟩ | ⟨r, hphase', -⟩ |
        ⟨-, hsom⟩
      · exact absurd (hphase.symm.trans hphase') (by simp)
      · exact absurd (hphase.symm.trans hphase') (by simp)
      · exact absurd (hphase.symm.trans hphase') (by simp)
      · simp [hsom]
    obtain ⟨hserial, hconsumed, hsent, hiterations⟩ := htraffic
    refine ⟨hserial.trans h.serial, hconsumed.trans h.consumed, hsent.trans h.sent, ?_, ?_⟩
    · exact fun hphase' => by
        rw [hconnected] at hphase'
        cases hphase'
    · rw [hconnected, hiterations]
      rcases h.iterations with ⟨hsame, -⟩ | ⟨i, hi⟩
      · exact Or.inl ⟨hsame, fun _ _ hrcRx => by cases hrcRx⟩
      · refine Or.inr ⟨i, hiterations.trans hi.iterations, hi.imu, hi.carried, ?_⟩
        simp [hasserting]
  · exact h.timedOut hmain htimeout

/-! ## After the io service has stopped -/

/-- What the process started with is left to it. -/
theorem remaining_le (p : Process D) : remaining c p ≤ 2 * max 3 c.handshakeAttempts + 4 := by
  have hoperations (phase : SomPhase) : phase.operations c ≤ max 3 c.handshakeAttempts := by
    cases phase with
    | reading r need =>
      cases r with
      | handshake attempt => exact (Nat.sub_le _ _).trans (Nat.le_max_right _ _)
      | rcRx => exact Nat.le_max_left _ _
      | imu rcRx => exact (by decide : 2 ≤ 3).trans (Nat.le_max_left _ _)
    | flushing => exact (by decide : 1 ≤ 3).trans (Nat.le_max_left _ _)
    | writing w left => exact (by decide : 1 ≤ 3).trans (Nat.le_max_left _ _)
    | connected => exact Nat.zero_le _
    | halted => exact Nat.zero_le _
  have hphase := hoperations p.som.phase
  unfold remaining
  split <;> omega

/-- **Shutting down.** In every run that goes on after the io service has stopped, at most twice as
many steps as the operations of a handshake or an iteration are left. No byte is taken in any more,
a handshake does not succeed any more, and at most one more iteration is completed: the one under
way, whose reads time out except for a first read that was over before. -/
theorem shutdown_of_stopped [Double D] {acts acts' : List ProcessAction}
    (h : run (step c) boot acts = some p) (hio : p.io = .stopped)
    (h' : run (step c) p acts' = some q) :
    acts'.length ≤ 2 * max 3 c.handshakeAttempts + 4 ∧
      q.som.consumed = p.som.consumed ∧ q.som.serial = p.som.serial ∧
      (q.som.phase = .connected → p.som.phase = .connected) ∧
      (q.som.iterations = p.som.iterations ∨ ∃ i, q.som.iterations = p.som.iterations ++ [i] ∧
        i.imu = ({} : ReadResult .imu) ∧ p.Carried i.rcRx) := by
  have hlength := length_add_le_of_run (P := fun q : Process D => Coherent q ∧ q.io = .stopped)
    (μ := remaining c) (fun s a t hs hstep => by
      have hchange := change_of_step hstep
      obtain ⟨hstopped, hlt, -⟩ := change_of_stopped hs.1 hs.2 hchange
      exact ⟨⟨hs.1.change hchange, hstopped⟩, hlt⟩) ⟨coherent_of_run h, hio⟩ h'
  obtain ⟨-, -, hdrained⟩ := run_induction
    (P := fun q : Process D => Coherent q ∧ q.io = .stopped ∧ Drained p q) (A := fun _ => True)
    ⟨coherent_of_run h, hio, drained_self p⟩ (fun s a t _ hs hstep => by
      have hchange := change_of_step hstep
      obtain ⟨hstopped, -, -⟩ := change_of_stopped hs.1 hs.2.1 hchange
      exact ⟨hs.1.change hchange, hstopped, hs.2.2.change hs.1 hs.2.1 hchange⟩)
    (fun _ _ => trivial) h'
  refine ⟨?_, hdrained.consumed, hdrained.serial, hdrained.connected, ?_⟩
  · have hle := remaining_le (c := c) p
    omega
  · refine hdrained.iterations.imp And.left ?_
    rintro ⟨i, hi⟩
    exact ⟨i, hi.iterations, hi.imu, hi.carried⟩

/-- The io service stops between the two reads of the first iteration. -/
theorem shutdown_interrupted :
    ∃ p q : Process ℚ, run (step SomConfig.level) boot (interrupted.take 22) = some p ∧
      run (step SomConfig.level) p (interrupted.drop 22) = some q ∧
      (interrupted.drop 22).length ≤ 2 * max 3 SomConfig.level.handshakeAttempts + 4 ∧
      (q.som.iterations = p.som.iterations ∨ ∃ i, q.som.iterations = p.som.iterations ++ [i] ∧
        i.imu = ({} : ReadResult .imu) ∧ p.Carried i.rcRx) := by
  obtain ⟨q, hfull⟩ : ∃ q : Process ℚ, run (step SomConfig.level) boot
      (interrupted.take 22 ++ interrupted.drop 22) = some q := ⟨_, rfl⟩
  rw [run_append] at hfull
  obtain ⟨p, hrun, hrun'⟩ := Option.bind_eq_some_iff.mp hfull
  have hio : (run (step SomConfig.level) boot (interrupted.take 22)).map
      (fun p : Process ℚ => p.io) = some .stopped := rfl
  rw [hrun] at hio
  obtain ⟨hlength, -, -, -, hiterations⟩ := shutdown_of_stopped hrun (Option.some.inj hio) hrun'
  exact ⟨p, q, hrun, hrun', hlength, hiterations⟩

/-! ## Progress -/

theorem incomplete_startRead {s : Som D} {r : SomRead} (hphase : s.phase = .startRead r) :
    s.Incomplete c := by
  rw [Som.Incomplete, hphase]
  cases r with
  | handshake attempt => exact Nat.one_pos
  | rcRx => exact Nat.succ_pos 8
  | imu rcRx => exact Nat.succ_pos 27

/-- What follows an operation, if it is another one, lacks something. -/
theorem incomplete_attemptPhase {s : Som D} {attempt : ℕ}
    (hphase : s.phase = Som.attemptPhase c attempt) : s.phase = .halted ∨ s.Incomplete c := by
  unfold Som.attemptPhase at hphase
  split_ifs at hphase
  · exact Or.inr (incomplete_startRead hphase)
  · exact Or.inl hphase

theorem incomplete_finishRead [Double D] (s : Som D) (r : SomRead) (result : ReadResult r.type) :
    (Som.finishRead c s r result).phase = .halted ∨
      (Som.finishRead c s r result).phase = .connected ∨
      (Som.finishRead c s r result).Incomplete c := by
  cases r with
  | handshake attempt =>
    show (Som.finishHandshakeRead c s attempt result).phase = .halted ∨
      (Som.finishHandshakeRead c s attempt result).phase = .connected ∨
      (Som.finishHandshakeRead c s attempt result).Incomplete c
    unfold Som.finishHandshakeRead
    split_ifs
    · exact (incomplete_attemptPhase rfl).imp_right Or.inr
    · exact Or.inr (Or.inl rfl)
    · exact (incomplete_attemptPhase rfl).imp_right Or.inr
  | rcRx => exact Or.inr (Or.inr (incomplete_startRead rfl))
  | imu rcRx =>
    refine Or.inr (Or.inr ?_)
    show ControlSurfacePacket.codec.encode _ ≠ []
    exact List.ne_nil_of_length_pos (by rw [Codec.length_encode]; decide)

theorem incomplete_finishWrite (s : Som D) (w : SomWrite) (written : Bool) :
    (Som.finishWrite c s w written).phase = .halted ∨
      (Som.finishWrite c s w written).Incomplete c := by
  cases w with
  | handshake =>
    cases written with
    | false => exact Or.inl rfl
    | true => exact incomplete_attemptPhase rfl
  | controlSurface imuPacket => exact Or.inr (incomplete_startRead rfl)

/-- Nothing is left to do, or what is next lacks something. -/
def Begins (c : SomConfig D) (s : Som D) : Prop :=
  s.phase = .halted ∨ s.phase = .connected ∨ s.Incomplete c

theorem begins_done [Double D] {s s' : Som D} (h : s.done c = some s') : Begins c s' := by
  rcases Som.done_eq_some h with ⟨size, -, -, rfl⟩ | ⟨w, -, rfl⟩ | ⟨r, -, rfl⟩ | ⟨-, rfl⟩
  · refine Or.inr (Or.inr ?_)
    show HandshakePacket.codec.encode kHandshakePacket ≠ []
    decide
  · exact (incomplete_finishWrite s w true).imp_right Or.inr
  · exact incomplete_finishRead _ r _
  · exact Or.inr (Or.inr (incomplete_startRead rfl))

theorem begins_timeout [Double D] {s s' : Som D} {o : SomTimeout} (h : s.timeout c o = some s') :
    Begins c s' := by
  rcases Som.timeout_eq_some h with ⟨-, -, rfl⟩ | ⟨r, need, -, -, rfl⟩ | ⟨w, b, left, -, -, rfl⟩
  · exact Or.inl rfl
  · exact incomplete_finishRead s r {}
  · exact (incomplete_finishWrite s w false).imp_right Or.inr

/-- What lacks something can time out. -/
theorem exists_timeout [Double D] {s : Som D} (h : s.Incomplete c) :
    ∃ o s', s.timeout c o = some s' := by
  unfold Som.Incomplete at h
  split at h
  · next hphase =>
    refine ⟨.flush, { s with phase := .halted }, ?_⟩
    simp [Som.timeout, hphase, h]
  · next r need hphase =>
    obtain ⟨need, rfl⟩ := Nat.exists_eq_succ_of_ne_zero (Nat.pos_iff_ne_zero.mp h)
    refine ⟨.read, Som.finishRead c s r {}, ?_⟩
    simp [Som.timeout, hphase]
  · next w left hphase =>
    obtain ⟨b, rest, rfl⟩ := List.exists_cons_of_ne_nil h
    refine ⟨.write, Som.finishWrite c s w false, ?_⟩
    simp [Som.timeout, hphase]
  · exact h.elim

/-- What lacks nothing is completed. -/
theorem exists_done [Double D] {s : Som D} (h : ¬ s.Incomplete c) (hhalted : s.phase ≠ .halted) :
    ∃ s', s.done c = some s' := by
  unfold Som.Incomplete at h
  cases hphase : s.phase with
  | flushing =>
    simp only [hphase] at h
    obtain ⟨size, hsize⟩ := Option.ne_none_iff_exists'.mp h
    exact ⟨s.finishFlush size, by simp [Som.done, hphase, hsize]⟩
  | writing w left =>
    simp only [hphase, ne_eq, not_not] at h
    subst h
    exact ⟨Som.finishWrite c s w true, by simp [Som.done, hphase]⟩
  | reading r need =>
    simp only [hphase, Nat.pos_iff_ne_zero, ne_eq, not_not] at h
    subst h
    exact ⟨Som.completeRead c s r, by simp [Som.done, hphase]⟩
  | connected =>
    exact ⟨{ s with controller := s.controller.sendTelemetry, phase := .startRead .rcRx }, by
      simp [Som.done, hphase]⟩
  | halted => exact absurd hphase hhalted

/-- The main thread does not wait for anything that is complete, unless the io thread is there to
say so. -/
def Ready (c : SomConfig D) (p : Process D) : Prop := p.Serves ∨ Begins c p.som

theorem ready_boot [Double D] (hterminator : c.handshakeTerminationStr ≠ []) :
    Ready c (boot : Process D) := by
  refine Or.inr (Or.inr (Or.inr ?_))
  show SerialController.untilSize c.handshakeTerminationStr [] = none
  rw [SerialController.untilSize, if_neg hterminator]

theorem Ready.begins (h : Ready c p) (hserves : ¬ p.Serves) : Begins c p.som :=
  h.resolve_left hserves

/-- Other work that ends does not stop the io thread from serving. -/
theorem serves_settle (h : p.Serves) : p.settle.Serves := by
  rcases settle_cases p with ⟨hsettle, -⟩ | ⟨-, -, hwork⟩
  · rwa [hsettle]
  · rw [work, h.2.2] at hwork
    simp at hwork

theorem Ready.change [Double D] (h : Ready c p) (hchange : Change c p a q) : Ready c q := by
  have hother {main : MainThread} (hmain : p.main = main) (hne : main ≠ .waiting) :
      Begins c p.som := h.begins fun hserves => hne (hmain ▸ hserves.1)
  cases hchange with
  | started hmain => exact Or.inr (hother hmain (by simp))
  | begun hmain => exact Or.inr (hother hmain (by simp))
  | connected _ _ hdone => exact Or.inr (begins_done hdone)
  | aborted hmain => exact Or.inr (hother hmain (by simp))
  | asserted hmain => exact Or.inr (hother hmain (by simp))
  | left hmain =>
    right
    rw [leave, som_settle]
    exact hother hmain (by simp)
  | entered hmain => exact Or.inr (hother hmain (by simp))
  | joined hmain => exact Or.inr (hother hmain (by simp))
  | timedOut _ htimeout =>
    right
    rw [som_proceed]
    exact begins_timeout htimeout
  | sent hserves => exact Or.inl hserves
  | received hserves => exact Or.inl hserves
  | completed _ hdone =>
    right
    rw [som_proceed]
    exact begins_done hdone
  | failed _ hincomplete =>
    right
    rw [som_settle]
    exact Or.inr (Or.inr hincomplete)
  | retired =>
    rcases h with hserves | hbegins
    · exact Or.inl (serves_settle hserves)
    · right
      rwa [som_settle]
  | raised => exact h
  | handled =>
    rcases h with hserves | hbegins
    · exact Or.inl (serves_settle hserves)
    · right
      rwa [som_settle]

theorem ready_of_run [Double D] (hterminator : c.handshakeTerminationStr ≠ [])
    {acts : List ProcessAction} (h : run (step c) boot acts = some p) : Ready c p :=
  run_induction (A := fun _ => True) (ready_boot hterminator)
    (fun _ _ _ _ hp hstep => hp.change (change_of_step hstep)) (fun _ _ => trivial) h

theorem retire_eq {leftover : ℕ} (hio : p.io = .running) (heq : p.leftover = leftover + 1) :
    p.retire = some (settle { p with leftover := leftover }) := by
  obtain ⟨som, main, io, signal, worker, operation, left⟩ := p
  cases hio
  cases heq
  rfl

theorem handleSignal_eq (hio : p.io = .running) (hsignal : p.signal = .raised) :
    p.handleSignal = some (settle { p with signal := .handled, worker := false }) := by
  obtain ⟨som, main, io, signal, worker, operation, left⟩ := p
  cases hio
  cases hsignal
  rfl

/-- The handshake has failed, and the destructor waits for an io service that only SIGINT can
stop. -/
def Hangs (p : Process D) : Prop :=
  p.main = .joining .EXIT_FAILURE ∧ p.signal = .awaited ∧ p.leftover = 0

/-- What the main thread waits for is over some time. -/
theorem exists_proceed [Double D] (hmain : p.main = .waiting) (hplaced : Placed p)
    (hready : Ready c p) :
    ∃ a som, a ≠ .raise ∧ a ≠ .receive [] ∧ step c p a = some (p.proceed som) := by
  rw [Placed, hmain] at hplaced
  by_cases hincomplete : p.som.Incomplete c
  · obtain ⟨o, som, htimeout⟩ := exists_timeout hincomplete
    exact ⟨.timeout o, som, by simp, by simp, by simp [step, timeout, hmain, htimeout]⟩
  · -- only the io thread can have left it complete
    have hserves : p.Serves := by
      by_contra hserves
      rcases hready.begins hserves with hhalted | hconnected | hbegins
      · exact hplaced.1 hhalted
      · exact hplaced.2 hconnected
      · exact hincomplete hbegins
    obtain ⟨som, hdone⟩ := exists_done hincomplete hplaced.1
    exact ⟨.done, som, by simp, by simp, by simp [step, done, hserves, hdone]⟩

theorem exists_step [Double D] (hcoherent : Coherent p) (hplaced : Placed p) (hready : Ready c p)
    (hover : ¬ p.Over) (hhangs : ¬ p.Hangs) :
    ∃ a q, a ≠ .raise ∧ a ≠ .receive [] ∧ step c p a = some q := by
  cases hmain : p.main with
  | constructed => exact ⟨.goOn, _, by simp, by simp, by rw [step, goOn, hmain]⟩
  | starting =>
    rw [Placed, hmain] at hplaced
    refine ⟨.goOn, ?_⟩
    cases hphase : p.som.phase with
    | halted => exact absurd hphase hplaced
    | connected => exact ⟨_, by simp, by simp, by
      simp only [step, goOn, hmain, hphase, Som.done]; rfl⟩
    | flushing =>
      exact ⟨{ p with main := .waiting, operation := true }, by simp, by simp, by
        simp [step, goOn, hmain, hphase]⟩
    | writing w left =>
      exact ⟨{ p with main := .waiting, operation := true }, by simp, by simp, by
        simp [step, goOn, hmain, hphase]⟩
    | reading r need =>
      exact ⟨{ p with main := .waiting, operation := true }, by simp, by simp, by
        simp [step, goOn, hmain, hphase]⟩
  | waiting =>
    obtain ⟨a, som, ha, hne, hstep⟩ := exists_proceed hmain hplaced hready
    exact ⟨a, p.proceed som, ha, hne, hstep⟩
  | asserting => exact ⟨.goOn, _, by simp, by simp, by rw [step, goOn, hmain]⟩
  | checking => exact ⟨.goOn, _, by simp, by simp, by rw [step, goOn, hmain]⟩
  | joining code =>
    cases hio : p.io with
    | idle =>
      rw [hcoherent.idle.mp hio] at hmain
      cases hmain
    | stopped =>
      exact ⟨.goOn, { p with main := .returned code }, by simp, by simp, by
        simp [step, goOn, *]⟩
    | running =>
      cases hleftover : p.leftover with
      | succ leftover => exact ⟨.retire, _, by simp, by simp, retire_eq hio hleftover⟩
      | zero =>
        cases hsignal : p.signal with
        | raised => exact ⟨.handleSignal, _, by simp, by simp, handleSignal_eq hio hsignal⟩
        | handled =>
          -- there would be no work left
          have hbusy := hcoherent.busy hio
          have hop : p.operation = false := by
            by_contra hop
            have hwaiting := hcoherent.operation (Bool.eq_true_of_not_eq_false hop)
            rw [hmain] at hwaiting
            cases hwaiting
          simp [work, hcoherent.joining code hmain, hsignal, hop, hleftover] at hbusy
        | awaited =>
          rw [Placed, hmain] at hplaced
          cases code with
          | EXIT_SUCCESS =>
            rw [hio] at hplaced
            cases hplaced.1
          | EXIT_FAILURE => exact absurd ⟨hmain, hsignal, hleftover⟩ hhangs
  | returned code => exact absurd (by rw [Over, hmain]; trivial) hover
  | failed => exact absurd (by rw [Over, hmain]; trivial) hover

/-- **Progress.** In every state that a run reaches short of the end of the process, something
other than SIGINT and an empty transfer can happen, except in one case, in which nothing but SIGINT
can: the handshake has failed, the handlers of all operations have ended, and the destructor waits
for SIGINT. -/
theorem progress_of_run [Double D] (hterminator : c.handshakeTerminationStr ≠ [])
    {acts : List ProcessAction} (h : run (step c) boot acts = some p) (hover : ¬ p.Over) :
    (¬ p.Hangs → ∃ a q, a ≠ .raise ∧ a ≠ .receive [] ∧ step c p a = some q) ∧
      (p.Hangs → ∀ a q, step c p a = some q → a = .raise) := by
  have hcoherent := coherent_of_run h
  constructor
  · exact exists_step hcoherent (placed_of_run h) (ready_of_run hterminator h) hover
  · rintro ⟨hmain, hsignal, hleftover⟩ a q hstep
    cases change_of_step hstep with
    | raised => rfl
    | joined _ hio =>
      rw [hcoherent.stopped hio] at hsignal
      cases hsignal
    | retired _ heq => cases hleftover.symm.trans heq
    | handled _ hraised => cases hsignal.symm.trans hraised
    | sent hserves => cases hmain.symm.trans hserves.1
    | received hserves => cases hmain.symm.trans hserves.1
    | completed hserves => cases hmain.symm.trans hserves.1
    | failed hserves => cases hmain.symm.trans hserves.1
    | started hmain' => cases hmain.symm.trans hmain'
    | begun hmain' => cases hmain.symm.trans hmain'
    | connected hmain' => cases hmain.symm.trans hmain'
    | aborted hmain' => cases hmain.symm.trans hmain'
    | asserted hmain' => cases hmain.symm.trans hmain'
    | left hmain' => cases hmain.symm.trans hmain'
    | entered hmain' => cases hmain.symm.trans hmain'
    | timedOut hmain' => cases hmain.symm.trans hmain'

/-- The write of the handshake times out, and the handlers of both operations end. -/
def unanswered : List ProcessAction :=
  [.goOn, .goOn, .receive [102, 108, 117, 115, 104, 13, 10], .done, .goOn, .timeout .write, .retire,
    .retire]

theorem progress_unanswered :
    ∃ p : Process ℚ, run (step SomConfig.level) boot unanswered = some p ∧ p.Hangs ∧
      (¬ p.Hangs → ∃ a q, a ≠ .raise ∧ a ≠ .receive [] ∧ step SomConfig.level p a = some q) ∧
      (p.Hangs → ∀ a q, step SomConfig.level p a = some q → a = .raise) := by
  have hrun : run (step SomConfig.level) boot unanswered = some _ := rfl
  exact ⟨_, hrun, ⟨rfl, rfl, rfl⟩, progress_of_run (by decide) hrun not_false⟩

/-! ## After SIGINT -/

/-- Some run from here ends the process. -/
def CanEnd [Double D] (c : SomConfig D) (p : Process D) : Prop :=
  ∃ acts q, run (step c) p acts = some q ∧ q.Over

theorem CanEnd.of_run [Double D] {acts : List ProcessAction} (h : CanEnd c q)
    (hrun : run (step c) p acts = some q) : CanEnd c p := by
  obtain ⟨acts', r, hrun', hover⟩ := h
  refine ⟨acts ++ acts', r, ?_, hover⟩
  rw [run_append, hrun]
  exact hrun'

theorem CanEnd.of_step [Double D] (h : CanEnd c q) (hstep : step c p a = some q) :
    CanEnd c p := by
  have hrun : run (step c) p [a] = some q := by
    rw [run_cons, hstep]
    rfl
  exact h.of_run hrun

/-- Some run leads here. -/
def Reached [Double D] (c : SomConfig D) (p : Process D) : Prop :=
  ∃ acts, run (step c) boot acts = some p

theorem Reached.step [Double D] (h : Reached c p) (hstep : step c p a = some q) : Reached c q := by
  obtain ⟨acts, hrun⟩ := h
  refine ⟨acts ++ [a], ?_⟩
  rw [run_append, hrun]
  show (Process.step c p a).bind _ = _
  rw [hstep]
  rfl

/-- Once the io service has stopped, whatever the main thread does ends the process. -/
theorem canEnd_of_stopped [Double D] (hterminator : c.handshakeTerminationStr ≠ [])
    (h : Reached c p) (hio : p.io = .stopped) : CanEnd c p := by
  obtain ⟨acts, q, hrun, -, hover⟩ := exists_run_of_decrease (Q := Over)
    (P := fun p : Process D => Reached c p ∧ p.io = .stopped) (μ := remaining c)
    (fun p a q hp (hstep : step c p a = some q) => by
      obtain ⟨acts, hrun⟩ := hp.1
      obtain ⟨hstopped, hlt, -⟩ :=
        change_of_stopped (coherent_of_run hrun) hp.2 (change_of_step hstep)
      exact ⟨⟨hp.1.step hstep, hstopped⟩, hlt⟩)
    (fun p hp => by
      by_cases hover : p.Over
      · exact Or.inl hover
      · obtain ⟨acts, hrun⟩ := hp.1
        have hhangs : ¬ p.Hangs := by
          rintro ⟨-, hsignal, -⟩
          cases ((coherent_of_run hrun).stopped hp.2).symm.trans hsignal
        obtain ⟨a, q, -, -, hstep⟩ := exists_step (coherent_of_run hrun) (placed_of_run hrun)
          (ready_of_run hterminator hrun) hover hhangs
        exact Or.inr ⟨a, q, hstep⟩) ⟨h, hio⟩
  exact ⟨acts, q, hrun, hover⟩

/-- While the main thread is between two operations, all handlers may end. -/
theorem canEnd_of_leftover [Double D] (hterminator : c.handshakeTerminationStr ≠ []) {n : ℕ}
    (h : Reached c p) (hio : p.io = .running) (hsignal : p.signal = .handled)
    (hoperation : p.operation = false) (hleftover : p.leftover = n + 1) : CanEnd c p := by
  induction n generalizing p with
  | zero =>
    have hstep : step c p .retire = some (settle { p with leftover := 0 }) :=
      retire_eq hio hleftover
    obtain ⟨acts, hrun⟩ := h
    have hworker := (coherent_of_run hrun).handled hsignal
    refine CanEnd.of_step (canEnd_of_stopped hterminator (Reached.step ⟨acts, hrun⟩ hstep) ?_) hstep
    have hwork : work { p with leftover := 0 } = 0 := by
      simp [work, hworker, hsignal, hoperation]
    show p.io.next _ = .stopped
    rw [hwork, hio, IoService.runs_next.exhausted]
  | succ n ih =>
    have hstep : step c p .retire = some (settle { p with leftover := n + 1 }) :=
      retire_eq hio hleftover
    have hbusy : settle { p with leftover := n + 1 } = { p with leftover := n + 1 } := by
      rcases settle_cases { p with leftover := n + 1 } with ⟨hsettle, -⟩ | ⟨-, -, hwork⟩
      · exact hsettle
      · simp [work] at hwork
    rw [hbusy] at hstep
    exact (ih (h.step hstep) hio hsignal hoperation rfl).of_step hstep

/-- Between two operations, either the io service has stopped or handlers keep it running. -/
theorem canEnd_of_free [Double D] (hterminator : c.handshakeTerminationStr ≠ [])
    (h : Reached c p) (hsignal : p.signal = .handled) (hoperation : p.operation = false) :
    CanEnd c p := by
  obtain ⟨acts, hrun⟩ := h
  have hcoherent := coherent_of_run hrun
  cases hio : p.io with
  | idle => exact absurd hsignal (hcoherent.early hio)
  | stopped => exact canEnd_of_stopped hterminator ⟨acts, hrun⟩ hio
  | running =>
    have hbusy := hcoherent.busy hio
    simp only [work, hcoherent.handled hsignal, hsignal, hoperation, Bool.toNat_false, if_true,
      Nat.zero_add] at hbusy
    obtain ⟨n, hleftover⟩ := Nat.exists_eq_succ_of_ne_zero (Nat.pos_iff_ne_zero.mp hbusy)
    exact canEnd_of_leftover hterminator ⟨acts, hrun⟩ hio hsignal hoperation hleftover

theorem operation_proceed (p : Process D) (som : Som D) : (p.proceed som).operation = false := by
  rcases proceed_cases p som with ⟨-, -, heq⟩ | ⟨-, heq⟩ | ⟨_, -, heq⟩ | ⟨-, -, heq⟩
  · rw [heq]
    rfl
  · rw [heq, leave, operation_settle]
    rfl
  · rw [heq]
    rfl
  · rw [heq]
    rfl

theorem canEnd_of_handled [Double D] (hterminator : c.handshakeTerminationStr ≠ [])
    (h : Reached c p) (hsignal : p.signal = .handled) : CanEnd c p := by
  by_cases hoperation : p.operation = false
  · exact canEnd_of_free hterminator h hsignal hoperation
  · -- the operation under way comes to its end first
    obtain ⟨acts, hrun⟩ := h
    have hmain := (coherent_of_run hrun).operation (Bool.eq_true_of_not_eq_false hoperation)
    obtain ⟨a, som, -, -, hstep⟩ :=
      exists_proceed hmain (placed_of_run hrun) (ready_of_run hterminator hrun)
    refine CanEnd.of_step (canEnd_of_free hterminator (Reached.step ⟨acts, hrun⟩ hstep) ?_ ?_) hstep
    · rw [signal_proceed, hsignal]
    · exact operation_proceed p som

/-- **SIGINT lets the process end.** From every state that a run reaches with SIGINT raised, some
run ends the process. -/
theorem exit_after_raise [Double D] (hterminator : c.handshakeTerminationStr ≠ [])
    {acts : List ProcessAction} (h : run (step c) boot acts = some p)
    (hsignal : p.signal ≠ .awaited) :
    ∃ acts' q, run (step c) p acts' = some q ∧ q.Over := by
  have hrunning {p : Process D} (h : Reached c p) (hio : p.io = .running)
      (hraised : p.signal = .raised) : CanEnd c p := by
    have hstep : step c p .handleSignal = some _ := handleSignal_eq hio hraised
    refine CanEnd.of_step (canEnd_of_handled hterminator (h.step hstep) ?_) hstep
    rw [signal_settle]
  cases hraised : p.signal with
  | awaited => exact absurd hraised hsignal
  | handled => exact canEnd_of_handled hterminator ⟨acts, h⟩ hraised
  | raised =>
    have hcoherent := coherent_of_run h
    cases hio : p.io with
    | stopped => cases (hcoherent.stopped hio).symm.trans hraised
    | running => exact hrunning ⟨acts, h⟩ hio hraised
    | idle =>
      have hstep : step c p .goOn = some { p with main := .starting, io := .running } := by
        rw [step, goOn, hcoherent.idle.mp hio]
      exact (hrunning (Reached.step ⟨acts, h⟩ hstep) rfl hraised).of_step hstep

/-- The process that hangs is sent SIGINT. -/
theorem exit_unanswered :
    ∃ p : Process ℚ, run (step SomConfig.level) boot (unanswered ++ [.raise]) = some p ∧
      ∃ acts' q, run (step SomConfig.level) p acts' = some q ∧ q.Over := by
  have hrun : run (step SomConfig.level) boot (unanswered ++ [.raise]) = some _ := rfl
  exact ⟨_, hrun, exit_after_raise (by decide) hrun (by simp)⟩

/-! ## How long it may take -/

/-- One more iteration, in which nothing times out. -/
def iteration : List ProcessAction :=
  [.goOn, .goOn, .receive (List.replicate 9 0), .done, .goOn, .receive (List.replicate 28 0), .done,
    .goOn, .send, .send, .send, .send, .done]

theorem run_iteration [Double D] (hio : p.io = .running) (hmain : p.main = .checking)
    (hphase : p.som.phase = .startRead .rcRx) :
    ∃ q i, run (step c) p iteration = some q ∧ q.io = .running ∧ q.main = .checking ∧
      q.som.phase = .startRead .rcRx ∧ q.signal = p.signal ∧
      q.som.iterations = p.som.iterations ++ [i] ∧
      i.rcRx.didTimeout = false ∧ i.imu.didTimeout = false := by
  obtain ⟨⟨phase, serial, controller, consumed, sent, iterations⟩, main, io, signal, worker,
    operation, leftover⟩ := p
  cases hio
  cases hmain
  cases hphase
  exact ⟨_, _, rfl, rfl, rfl, rfl, rfl, rfl, rfl, rfl⟩

/-- **SIGINT does not end the main loop.** From every state at the loop condition that a run
reaches before the io service has stopped, also after the handler of SIGINT has ended, any number
of further iterations may be completed without a timeout: the last handler of an operation may
always end after the next operation has begun. -/
theorem iterations_after_handler [Double D] {acts : List ProcessAction}
    (h : run (step c) boot acts = some p) (hio : p.io = .running) (hmain : p.main = .checking)
    (n : ℕ) :
    ∃ acts' q rest, run (step c) p acts' = some q ∧ q.io = .running ∧ q.main = .checking ∧
      q.signal = p.signal ∧ q.som.iterations = p.som.iterations ++ rest ∧ rest.length = n ∧
      ∀ i ∈ rest, i.rcRx.didTimeout = false ∧ i.imu.didTimeout = false := by
  have hphase := placed_of_run h
  rw [Placed, hmain] at hphase
  clear h
  induction n generalizing p with
  | zero => exact ⟨[], p, [], rfl, hio, hmain, rfl, (List.append_nil _).symm, rfl, by simp⟩
  | succ n ih =>
    obtain ⟨q, i, hrun, hio, hmain, hphase, hsignal, hiterations, hrcRx, himu⟩ :=
      run_iteration (c := c) hio hmain hphase
    obtain ⟨acts', r, rest, hrun', hio', hmain', hsignal', hiterations', hlength, hrest⟩ :=
      ih hio hmain hphase
    refine ⟨iteration ++ acts', r, i :: rest, ?_, hio', hmain', hsignal'.trans hsignal, ?_, ?_, ?_⟩
    · rw [run_append, hrun]
      exact hrun'
    · rw [hiterations', hiterations, List.append_assoc, List.singleton_append]
    · rw [List.length_cons, hlength]
    · intro j hj
      rcases List.mem_cons.mp hj with rfl | hj
      · exact ⟨hrcRx, himu⟩
      · exact hrest j hj

/-- The handler of SIGINT ends before the main loop, in front of the handlers of the handshake. -/
def interruptedEarly : List ProcessAction :=
  [.goOn, .goOn, .receive [102, 108, 117, 115, 104, 13, 10], .done, .goOn, .send, .done, .goOn,
    .receive [1], .done, .goOn, .raise, .handleSignal, .goOn]

theorem iterations_interruptedEarly :
    ∃ p : Process ℚ, run (step SomConfig.level) boot interruptedEarly = some p ∧
      p.signal = .handled ∧ ∃ acts' q rest, run (step SomConfig.level) p acts' = some q ∧
        q.io = .running ∧ q.main = .checking ∧ q.signal = p.signal ∧
        q.som.iterations = p.som.iterations ++ rest ∧ rest.length = 100 ∧
        ∀ i ∈ rest, i.rcRx.didTimeout = false ∧ i.imu.didTimeout = false := by
  have hrun : run (step SomConfig.level) boot interruptedEarly = some _ := rfl
  exact ⟨_, hrun, rfl, iterations_after_handler hrun rfl rfl 100⟩

end Process

end RcPlane
