import Mathlib.Data.Nat.ModEq
import RcPlane.Som.Environment

/-!
# Accounting of the serial operations

Every outcome of a read or a write is counted in `DebugMessage`, but for one: a byte of the
handshake that is not the acknowledgement. A record kept beside the run counts the calls
themselves, and is compared with each message that is published.

## Main definitions

* `Tally`: how many calls of `readPacket` and `writePacket` are over, and how many iterations
* `Audit`: the tally of a run, with every message published and the tally at that time
* `DebugMessage.Matches`: the counters of a message are those of a tally, modulo 2³²

## Main results

* `Som.audited_of_run`: the reads counted fall short of the calls by the bytes rejected
* `Som.matches_iff_of_run`: the published messages match the calls exactly when no byte of the
  handshake was rejected
-/

namespace RcPlane

open Foundation

/-! ## The tally -/

/-- The calls that are over. -/
structure Tally where
  reads : ℕ := 0
  writes : ℕ := 0
  iterations : ℕ := 0
  /-- The reads of the handshake that returned a byte other than the acknowledgement. -/
  unexpected : ℕ := 0
deriving DecidableEq, Repr

/-- The read returned a byte that is not the acknowledgement. -/
def ReadResult.isRejected (result : ReadResult .handshake) : Bool :=
  !result.didTimeout && decide (kHandshakePacket ≠ result.packet)

/-- The read is one of the handshake, and its byte is not the acknowledgement. -/
def SomRead.rejects : (r : SomRead) → ReadResult r.type → Bool
  | .handshake _, result => result.isRejected
  | _, _ => false

namespace Tally

/-- A read is over. -/
def endRead (t : Tally) (r : SomRead) (result : ReadResult r.type) : Tally :=
  { t with
    reads := t.reads + 1
    unexpected := t.unexpected + (r.rejects result).toNat }

/-- A write is over, and with it the iteration whose answer it writes. -/
def endWrite (t : Tally) : SomWrite → Tally
  | .handshake => { t with writes := t.writes + 1 }
  | .controlSurface _ => { t with writes := t.writes + 1, iterations := t.iterations + 1 }

@[simp] theorem unexpected_endWrite (t : Tally) (w : SomWrite) :
    (t.endWrite w).unexpected = t.unexpected := by
  cases w <;> rfl

variable {D : Type}

/-- The tally after an action of the SoM in the given state. -/
def note (t : Tally) (s : Som D) : SomAction → Tally
  | .done =>
    match s.phase with
    | .reading r _ => t.endRead r (s.serial.completeRead r.type).1
    | .writing w _ => t.endWrite w
    | _ => t
  | .timeout _ =>
    match s.phase with
    | .reading r _ => t.endRead r {}
    | .writing w _ => t.endWrite w
    | _ => t
  | _ => t

end Tally

/-- The counters of a message are those of the tally, modulo 2³². -/
def DebugMessage.Matches (m : DebugMessage) (t : Tally) : Prop :=
  m.serialReads.toNat + m.serialReadTimeouts.toNat ≡ t.reads [MOD 2 ^ 32] ∧
    m.serialWrites.toNat + m.serialWriteTimeouts.toNat ≡ t.writes [MOD 2 ^ 32] ∧
    m.mainLoopCounter.toNat ≡ t.iterations [MOD 2 ^ 32]

instance (m : DebugMessage) (t : Tally) : Decidable (m.Matches t) :=
  inferInstanceAs (Decidable (_ ∧ _ ∧ _))

/-- The record of a run: the tally, and the messages published with the tally at that time. -/
structure Audit where
  tally : Tally := {}
  published : List (DebugMessage × Tally) := []
deriving DecidableEq, Repr

/-- The record after an action, given the SoM before and after it. -/
def Audit.note {D : Type} (m : Audit) (s : Som D) (a : SomAction) (s' : Som D) : Audit where
  tally := m.tally.note s a
  published := m.published ++
    (s'.controller.telemetry.drop s.controller.telemetry.length).map
      fun message => (message.1, m.tally.note s a)

/-! ## The counters -/

/-- The counters of a message are those of the tally, but for the bytes rejected. -/
structure DebugMessage.Accounted (m : DebugMessage) (t : Tally) : Prop where
  reads :
    m.serialReads.toNat + m.serialReadTimeouts.toNat + t.unexpected ≡ t.reads [MOD 2 ^ 32]
  writes : m.serialWrites.toNat + m.serialWriteTimeouts.toNat ≡ t.writes [MOD 2 ^ 32]
  iterations : m.mainLoopCounter.toNat ≡ t.iterations [MOD 2 ^ 32]

/-- A message that is accounted for matches exactly when the bytes rejected make no difference. -/
theorem DebugMessage.Accounted.matches_iff {m : DebugMessage} {t : Tally} (h : m.Accounted t) :
    m.Matches t ↔ 2 ^ 32 ∣ t.unexpected := by
  obtain ⟨hreads, hwrites, hiterations⟩ := h
  -- only the reads fall short
  have hdiff : m.serialReads.toNat + m.serialReadTimeouts.toNat ≡ t.reads [MOD 2 ^ 32] ↔
      2 ^ 32 ∣ t.unexpected := by
    simp only [Nat.ModEq] at hreads ⊢
    omega
  rw [Matches, hdiff]
  exact and_iff_left ⟨hwrites, hiterations⟩

/-- A counter that wraps counts modulo 2³². -/
theorem toNat_succ (n : UInt32) : (n + 1).toNat ≡ n.toNat + 1 [MOD 2 ^ 32] := by
  rw [UInt32.toNat_add]
  exact Nat.mod_modEq _ _

namespace SomController

variable {D : Type} {s : SomController D} {t : Tally}

/-- A read that is counted, and returned no byte that is rejected. -/
theorem accounted_countRead (h : s.debugMessage.Accounted t) {r : SomRead}
    {result : ReadResult r.type} (hr : r.rejects result = false) (didTimeout : Bool) :
    (s.countRead didTimeout).debugMessage.Accounted (t.endRead r result) := by
  have hreads := h.reads
  have hsucc := toNat_succ s.debugMessage.serialReads
  have hsucc' := toNat_succ s.debugMessage.serialReadTimeouts
  simp only [Nat.ModEq] at hreads hsucc hsucc'
  refine ⟨?_, ?_, ?_⟩
  · cases didTimeout <;> simp [countRead, Tally.endRead, Nat.ModEq, hr] <;> omega
  · cases didTimeout <;> exact h.writes
  · cases didTimeout <;> exact h.iterations

theorem accounted_countWrite (h : s.debugMessage.Accounted t) (written : Bool) :
    (s.countWrite written).debugMessage.Accounted (t.endWrite .handshake) := by
  have hwrites := h.writes
  have hsucc := toNat_succ s.debugMessage.serialWrites
  have hsucc' := toNat_succ s.debugMessage.serialWriteTimeouts
  simp only [Nat.ModEq] at hwrites hsucc hsucc'
  refine ⟨?_, ?_, ?_⟩
  · cases written <;> exact h.reads
  · cases written <;> simp [countWrite, Tally.endWrite, Nat.ModEq] <;> omega
  · cases written <;> exact h.iterations

theorem accounted_finishIteration (c : SomConfig D) (h : s.debugMessage.Accounted t)
    (imuPacket : ImuPacket) (written : Bool) :
    (s.finishIteration c imuPacket written).debugMessage.Accounted
      (t.endWrite (.controlSurface imuPacket)) := by
  obtain ⟨hreads, hwrites, hiterations⟩ := accounted_countWrite h written
  refine ⟨hreads, hwrites, ?_⟩
  -- the write is counted first, and then the iteration
  exact (toNat_succ _).trans (hiterations.add_right 1)

end SomController

namespace Som

variable {D : Type} {c : SomConfig D} {s s' : Som D} {t : Tally}

/-! ## What follows an operation -/

/-- Unless the program has halted, the counters are those of the tally. -/
def Counted (s : Som D) (t : Tally) : Prop :=
  s.phase = .halted ∨ s.controller.debugMessage.Accounted t

theorem counted_finishRead [Double D] (h : s.controller.debugMessage.Accounted t)
    (r : SomRead) (result : ReadResult r.type) :
    Counted (finishRead c s r result) (t.endRead r result) := by
  cases r with
  | handshake attempt =>
    right
    show (finishHandshakeRead c s attempt result).controller.debugMessage.Accounted _
    unfold finishHandshakeRead
    split_ifs with htimeout hack
    · exact SomController.accounted_countRead h (by simp [SomRead.rejects, ReadResult.isRejected,
        htimeout]) true
    · exact SomController.accounted_countRead h (by simp [SomRead.rejects, ReadResult.isRejected,
        hack]) false
    · -- the branch that counts nothing: the call is over, and so is one more rejected byte
      have hrejected : result.isRejected = true := by
        simp [ReadResult.isRejected, htimeout, hack]
      refine ⟨?_, h.writes, h.iterations⟩
      simp only [Tally.endRead, SomRead.rejects, hrejected, Bool.toNat_true]
      exact h.reads.add_right 1
  | rcRx => exact Or.inr (SomController.accounted_countRead h rfl _)
  | imu rcRx => exact Or.inr (SomController.accounted_countRead h rfl _)

theorem counted_finishWrite (h : s.controller.debugMessage.Accounted t) (w : SomWrite)
    (written : Bool) : Counted (finishWrite c s w written) (t.endWrite w) := by
  cases w with
  | handshake =>
    cases written with
    -- the timeout that is not counted ends the program
    | false => exact Or.inl rfl
    | true => exact Or.inr (SomController.accounted_countWrite h true)
  | controlSurface imuPacket =>
    exact Or.inr (SomController.accounted_finishIteration c h imuPacket written)

/-- Every step counts what the tally counts, but for the bytes rejected. -/
theorem Counted.step [Double D] {a : SomAction} (h : Counted s t) (hstep : step c s a = some s') :
    Counted s' (t.note s a) := by
  cases a with
  -- a byte that is sent or received counts nothing
  | send =>
    obtain ⟨⟨b, s'⟩, hsend, rfl⟩ := Option.map_eq_some_iff.mp hstep
    obtain ⟨w, left, hphase, rfl⟩ := send_eq_some.mp hsend
    exact Or.inr (h.resolve_left (by simp [hphase]))
  | receive piece =>
    rcases receive_eq_some hstep with ⟨hphase, -, rfl⟩ | ⟨r, need, hphase, -, rfl⟩
    · exact Or.inr (h.resolve_left (by simp [hphase]))
    · exact Or.inr (h.resolve_left (by simp [hphase]))
  | done =>
    rcases done_eq_some hstep with ⟨size, hphase, -, rfl⟩ | ⟨w, hphase, rfl⟩ | ⟨r, hphase, rfl⟩ |
      ⟨hphase, rfl⟩
    all_goals
      have haccounted := h.resolve_left (by simp [hphase])
      simp only [Tally.note, hphase]
    · exact Or.inr haccounted
    · exact counted_finishWrite haccounted w true
    · exact counted_finishRead (s := { s with
        serial := (s.serial.completeRead r.type).2
        consumed := s.consumed ++ s.serial.streamBuffer.take r.type.codec.size }) haccounted r _
    · exact Or.inr haccounted
  | timeout o =>
    rcases timeout_eq_some hstep with ⟨-, hphase, rfl⟩ | ⟨r, need, -, hphase, rfl⟩ |
      ⟨w, b, left, -, hphase, rfl⟩
    all_goals
      have haccounted := h.resolve_left (by simp [hphase])
      simp only [Tally.note, hphase]
    · -- a flush that times out ends the program
      exact Or.inl rfl
    · exact counted_finishRead haccounted r {}
    · exact counted_finishWrite haccounted w false

/-! ## What is published -/

theorem telemetry_finishRead [Double D] (s : Som D) (r : SomRead) (result : ReadResult r.type) :
    (finishRead c s r result).controller.telemetry = s.controller.telemetry := by
  cases r with
  | handshake attempt =>
    show (finishHandshakeRead c s attempt result).controller.telemetry = _
    unfold finishHandshakeRead
    split_ifs <;> rfl
  | rcRx => rfl
  | imu rcRx => rfl

theorem telemetry_finishWrite (s : Som D) (w : SomWrite) (written : Bool) :
    (finishWrite c s w written).controller.telemetry = s.controller.telemetry ∨
      (finishWrite c s w written).InMainLoop ∧ ∃ rest,
        (finishWrite c s w written).controller.telemetry = s.controller.telemetry ++
          [((finishWrite c s w written).controller.debugMessage, rest)] := by
  cases w with
  | handshake => cases written <;> exact Or.inl rfl
  | controlSurface imuPacket => exact Or.inr ⟨trivial, _, rfl⟩

/-- A step publishes nothing, or goes on to the main loop's next iteration and publishes the
counters as they then are. -/
theorem telemetry_step [Double D] {a : SomAction} (hstep : step c s a = some s') :
    s'.controller.telemetry = s.controller.telemetry ∨
      s'.InMainLoop ∧ ∃ rest, s'.controller.telemetry =
        s.controller.telemetry ++ [(s'.controller.debugMessage, rest)] := by
  cases a with
  | send =>
    obtain ⟨⟨b, s'⟩, hsend, rfl⟩ := Option.map_eq_some_iff.mp hstep
    obtain ⟨w, left, hphase, rfl⟩ := send_eq_some.mp hsend
    exact Or.inl rfl
  | receive piece =>
    rcases receive_eq_some hstep with ⟨hphase, -, rfl⟩ | ⟨r, need, hphase, -, rfl⟩
    · exact Or.inl rfl
    · exact Or.inl rfl
  | done =>
    rcases done_eq_some hstep with ⟨size, hphase, -, rfl⟩ | ⟨w, hphase, rfl⟩ | ⟨r, hphase, rfl⟩ |
      ⟨hphase, rfl⟩
    · exact Or.inl rfl
    · exact telemetry_finishWrite s w true
    · exact Or.inl (telemetry_finishRead _ r _)
    · -- the call before the first iteration
      exact Or.inr ⟨trivial, _, rfl⟩
  | timeout o =>
    rcases timeout_eq_some hstep with ⟨-, hphase, rfl⟩ | ⟨r, need, -, hphase, rfl⟩ |
      ⟨w, b, left, -, hphase, rfl⟩
    · exact Or.inl rfl
    · exact Or.inl (telemetry_finishRead s r {})
    · exact telemetry_finishWrite s w false

/-- What a step publishes is recorded with the tally after it. -/
theorem published_note [Double D] {a : SomAction} (hstep : step c s a = some s') (m : Audit) :
    (m.note s a s').published = m.published ∨
      s'.InMainLoop ∧ (m.note s a s').published =
        m.published ++ [(s'.controller.debugMessage, m.tally.note s a)] := by
  rcases telemetry_step hstep with h | ⟨hloop, rest, h⟩
  · left
    simp [Audit.note, h]
  · right
    exact ⟨hloop, by simp [Audit.note, h]⟩

/-! ## The bytes rejected -/

/-- No more bytes have been rejected than attempts of the handshake are used up. -/
def AllowsRejected (c : SomConfig D) (n : ℕ) : SomPhase → Prop
  | .flushing | .writing .handshake _ => n = 0
  | .reading (.handshake attempt) _ => n ≤ attempt ∧ attempt < c.handshakeAttempts
  | .halted => True
  | _ => n < c.handshakeAttempts

theorem allowsRejected_attemptPhase {n attempt : ℕ} (h : n ≤ attempt) :
    AllowsRejected c n (attemptPhase c attempt) := by
  unfold attemptPhase
  split_ifs with hattempt
  · exact ⟨h, hattempt⟩
  · trivial

theorem allowsRejected_finishRead [Double D] {r : SomRead} {need : ℕ}
    (hphase : s.phase = .reading r need) (h : AllowsRejected c t.unexpected s.phase)
    (result : ReadResult r.type) :
    AllowsRejected c (t.endRead r result).unexpected (finishRead c s r result).phase := by
  rw [hphase] at h
  cases r with
  | handshake attempt =>
    obtain ⟨hle, hlt⟩ := h
    show AllowsRejected c (t.unexpected + result.isRejected.toNat)
      (finishHandshakeRead c s attempt result).phase
    unfold finishHandshakeRead
    split_ifs with htimeout hack
    · apply allowsRejected_attemptPhase
      simp [ReadResult.isRejected, htimeout]
      omega
    · -- the attempt that finds the acknowledgement rejects nothing
      show t.unexpected + _ < _
      simp [ReadResult.isRejected, hack]
      omega
    · -- the attempt that rejects a byte is used up
      apply allowsRejected_attemptPhase
      have hle' := Bool.toNat_le result.isRejected
      omega
  | rcRx => exact h
  | imu rcRx => exact h

theorem allowsRejected_finishWrite {w : SomWrite} {left : List UInt8}
    (hphase : s.phase = .writing w left) (h : AllowsRejected c t.unexpected s.phase)
    (written : Bool) :
    AllowsRejected c (t.endWrite w).unexpected (finishWrite c s w written).phase := by
  rw [hphase] at h
  cases w with
  | handshake =>
    cases written with
    | false => trivial
    | true => exact allowsRejected_attemptPhase (le_of_eq h)
  | controlSurface imuPacket => exact h

/-- Every step keeps to the attempts. -/
theorem allowsRejected_step [Double D] {a : SomAction} (h : AllowsRejected c t.unexpected s.phase)
    (hstep : step c s a = some s') : AllowsRejected c (t.note s a).unexpected s'.phase := by
  cases a with
  | send =>
    obtain ⟨⟨b, s'⟩, hsend, rfl⟩ := Option.map_eq_some_iff.mp hstep
    obtain ⟨w, left, hphase, rfl⟩ := send_eq_some.mp hsend
    rw [hphase] at h
    cases w <;> exact h
  | receive piece =>
    rcases receive_eq_some hstep with ⟨hphase, -, rfl⟩ | ⟨r, need, hphase, -, rfl⟩
    · exact h
    · rw [hphase] at h
      cases r <;> exact h
  | done =>
    rcases done_eq_some hstep with ⟨size, hphase, -, rfl⟩ | ⟨w, hphase, rfl⟩ | ⟨r, hphase, rfl⟩ |
      ⟨hphase, rfl⟩
    -- only the end of a read can be a rejected one
    all_goals simp only [Tally.note, hphase]
    · rw [hphase] at h
      exact h
    · exact allowsRejected_finishWrite hphase h true
    · exact allowsRejected_finishRead (s := { s with
        serial := (s.serial.completeRead r.type).2
        consumed := s.consumed ++ s.serial.streamBuffer.take r.type.codec.size }) hphase h _
    · rw [hphase] at h
      exact h
  | timeout o =>
    rcases timeout_eq_some hstep with ⟨-, hphase, rfl⟩ | ⟨r, need, -, hphase, rfl⟩ |
      ⟨w, b, left, -, hphase, rfl⟩
    all_goals simp only [Tally.note, hphase]
    · trivial
    · exact allowsRejected_finishRead hphase h {}
    · exact allowsRejected_finishWrite hphase h false

/-- The main loop rejects nothing. -/
theorem rejects_of_inMainLoop (hloop : s.InMainLoop) {r : SomRead} {need : ℕ}
    (hphase : s.phase = .reading r need) (result : ReadResult r.type) :
    r.rejects result = false := by
  rw [InMainLoop, hphase] at hloop
  cases r with
  | handshake attempt => exact hloop.elim
  | rcRx => rfl
  | imu rcRx => rfl

theorem unexpected_note (hloop : s.InMainLoop) (a : SomAction) :
    (t.note s a).unexpected = t.unexpected := by
  cases a with
  | send => rfl
  | receive piece => rfl
  | done =>
    simp only [Tally.note]
    split
    · next r need hphase => simp [Tally.endRead, rejects_of_inMainLoop hloop hphase]
    · next w left hphase => simp
    · rfl
  | timeout o =>
    simp only [Tally.note]
    split
    · next r need hphase => simp [Tally.endRead, rejects_of_inMainLoop hloop hphase]
    · next w left hphase => simp
    · rfl

theorem inMainLoop_step [Double D] {a : SomAction} (hloop : s.InMainLoop)
    (hstep : step c s a = some s') : s'.InMainLoop := by
  cases a with
  | send =>
    obtain ⟨⟨b, s'⟩, hsend, rfl⟩ := Option.map_eq_some_iff.mp hstep
    exact (send_of_inMainLoop hloop hsend).1
  | receive piece => exact (receive_of_inMainLoop hloop hstep).1
  | done => exact (done_of_inMainLoop hloop hstep).1
  | timeout o => exact (timeout_of_inMainLoop hloop hstep).1

/-! ## Whole runs -/

/-- What holds of the SoM and the record of its run. -/
structure Audited (c : SomConfig D) (p : Som D × Audit) : Prop where
  counted : p.1.Counted p.2.tally
  rejected : AllowsRejected c p.2.tally.unexpected p.1.phase
  /-- Nothing is published before the main loop. -/
  inMainLoop : p.2.published ≠ [] → p.1.InMainLoop
  published : ∀ q ∈ p.2.published,
    q.1.Accounted q.2 ∧ q.2.unexpected = p.2.tally.unexpected
  /-- The record has every message. -/
  telemetry : p.2.published.map Prod.fst = p.1.controller.telemetry.map Prod.fst

theorem audited_boot [Double D] (c : SomConfig D) : Audited c (boot, {}) where
  counted := Or.inr ⟨rfl, rfl, rfl⟩
  rejected := rfl
  inMainLoop h := absurd rfl h
  published q hq := by cases hq
  telemetry := rfl

/-- Every step keeps the record. -/
theorem Audited.step [Double D] {p q : Som D × Audit} {a : SomAction} (h : Audited c p)
    (hwatch : watch (step c) Audit.note p a = some q) : Audited c q := by
  obtain ⟨s, m⟩ := p
  obtain ⟨s', m'⟩ := q
  obtain ⟨hstep, rfl⟩ : Som.step c s a = some s' ∧ m' = m.note s a s' := watch_eq_some _ hwatch
  have hcounted : s'.Counted (m.tally.note s a) := h.counted.step hstep
  -- nothing is published while bytes may still be rejected
  have hunexpected : m.published ≠ [] →
      (m.tally.note s a).unexpected = m.tally.unexpected := fun hne =>
    unexpected_note (h.inMainLoop hne) a
  have hold : ∀ q ∈ m.published,
      q.1.Accounted q.2 ∧ q.2.unexpected = (m.tally.note s a).unexpected := by
    intro q hq
    rw [hunexpected (List.ne_nil_of_mem hq)]
    exact h.published q hq
  refine ⟨hcounted, allowsRejected_step h.rejected hstep, fun hne => ?_, fun q hq => ?_, ?_⟩
  · rcases published_note hstep m with hpublished | ⟨hloop, -⟩
    · exact inMainLoop_step (h.inMainLoop (hpublished ▸ hne)) hstep
    · exact hloop
  · rcases published_note hstep m with hpublished | ⟨hloop, hpublished⟩
    · exact hold q (hpublished ▸ hq)
    · rw [hpublished, List.mem_append, List.mem_singleton] at hq
      rcases hq with hq | rfl
      · exact hold q hq
      · -- in the main loop the program has not halted
        refine ⟨hcounted.resolve_left fun hhalted => ?_, rfl⟩
        rw [InMainLoop, hhalted] at hloop
        exact hloop
  · have htelemetry : m.published.map Prod.fst = s.controller.telemetry.map Prod.fst :=
      h.telemetry
    rcases telemetry_step hstep with heq | ⟨-, rest, heq⟩
    · simp [Audit.note, heq, htelemetry]
    · simp [Audit.note, heq, htelemetry]

variable {acts : List SomAction} {p : Som D × Audit}

/-- **Accounting.** At every call of `sendTelemetry`, whatever was received and whatever timed out
before it, the counters are those of the calls, but that the reads fall short by the bytes of the
handshake that were rejected. -/
theorem audited_of_run [Double D] (h : run (watch (step c) Audit.note) (boot, {}) acts = some p) :
    Audited c p :=
  run_induction (A := fun _ => True) (audited_boot c) (fun _ _ _ _ hp hstep => hp.step hstep)
    (fun _ _ => trivial) h

/-- Every run has its record, which has every message that the run published. -/
theorem exists_audit [Double D] (h : run (step c) boot acts = some s) :
    ∃ m : Audit, run (watch (step c) Audit.note) (boot, {}) acts = some (s, m) ∧
      m.published.map Prod.fst = s.controller.telemetry.map Prod.fst := by
  obtain ⟨m, hm⟩ := exists_run_watch Audit.note h {}
  exact ⟨m, hm, (audited_of_run hm).telemetry⟩

/-- Bytes are rejected by attempts, and the last attempt rejects none. -/
theorem Audited.unexpected_lt (h : Audited c p) (hne : p.2.published ≠ []) :
    p.2.tally.unexpected < c.handshakeAttempts := by
  have hloop := h.inMainLoop hne
  have hrejected := h.rejected
  unfold InMainLoop at hloop
  unfold AllowsRejected at hrejected
  split at hloop
  · next hphase => simpa [hphase] using hrejected
  · next hphase => simpa [hphase] using hrejected
  · next hphase => simpa [hphase] using hrejected
  · exact hloop.elim

/-- **The counters and the calls.** In every run, the message of each call of `sendTelemetry`
matches the calls made so far exactly when no byte of the handshake was rejected. The number of
attempts is a `uint32_t`. -/
theorem matches_iff_of_run [Double D] (hattempts : c.handshakeAttempts < 2 ^ 32)
    (h : run (watch (step c) Audit.note) (boot, {}) acts = some p) :
    ∀ q ∈ p.2.published, q.1.Matches q.2 ↔ p.2.tally.unexpected = 0 := by
  intro q hq
  have haudited := audited_of_run h
  obtain ⟨haccounted, hunexpected⟩ := haudited.published q hq
  have hlt := haudited.unexpected_lt (List.ne_nil_of_mem hq)
  rw [haccounted.matches_iff, hunexpected]
  constructor
  · intro hdvd
    exact Nat.eq_zero_of_dvd_of_lt hdvd (hlt.trans hattempts)
  · intro hzero
    rw [hzero]
    exact dvd_zero _

section Runs

/-- An attempt of the handshake times out before the acknowledgement, and after one iteration a read
and the write of the next one do. -/
def timeoutsCounted : List SomAction :=
  SomAction.greets ++ [.timeout .read, .receive [1], .done, .done] ++ SomAction.iteration 0x80 ++
    [.timeout .read, .receive (List.replicate 28 0), .done, .send, .timeout .write]

theorem matches_timeoutsCounted :
    SomConfig.level.handshakeAttempts < 2 ^ 32 ∧
      ∃ p, run (watch (step SomConfig.level) Audit.note) (boot, {}) timeoutsCounted = some p ∧
        p.2.published.length = 3 ∧ p.2.tally.unexpected = 0 ∧
        ∀ q ∈ p.2.published, q.1.Matches q.2 := by
  have hattempts : SomConfig.level.handshakeAttempts < 2 ^ 32 := by decide
  have hrun : run (watch (step SomConfig.level) Audit.note) (boot, {}) timeoutsCounted =
      some _ := rfl
  exact ⟨hattempts, _, hrun, rfl, rfl, fun q hq =>
    (matches_iff_of_run hattempts hrun q hq).mpr rfl⟩

/-- With one byte rejected, the first message counts one read, where two calls were made. -/
theorem unaccounted_rejectedOnce :
    ¬ ∀ acts p, run (watch (step SomConfig.level) Audit.note) (boot, {}) acts = some p →
      ∀ q ∈ p.2.published, q.1.Matches q.2 := by
  intro h
  have hall := h SomAction.rejectedOnce _ rfl
  revert hall
  decide +kernel

end Runs

end Som

end RcPlane
