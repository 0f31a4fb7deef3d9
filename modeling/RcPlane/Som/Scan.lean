import RcPlane.Som.Accounting

/-!
# The scan for the acknowledgement

After the flush and the handshake byte, `handshakeMCU` reads single bytes until one of them is
the acknowledgement or the attempts are used up. A read that times out uses up an attempt and
takes no byte, and leaves none behind, since a single byte is transferred or it is not. The scan
therefore takes exactly the bytes up to the first acknowledgement, whatever they are and whatever
times out.

## Main definitions

* `Scan`: the bytes received and the results of the handshake's reads, recorded beside a run
* `Scan.obtained`, `ReadResult.outcome`: the bytes of the reads, and what one of them reported
* `Som.Returned`: `handshakeMCU` has just returned
* `Som.Scanning`: what holds of the scan and its record

## Main results

* `Som.scanning_of_run`: it holds along every run
* `Som.exists_scan`: the scan returns, whatever its reads report
* `Som.handshake_scan`: it accepts exactly at the first acknowledgement
-/

namespace RcPlane

open Foundation

/-! ## The record -/

/-- What is recorded beside a run. -/
structure Scan where
  /-- The bytes of all pieces received. -/
  received : List UInt8 := []
  /-- The results of the reads of the handshake. -/
  results : List (ReadResult .handshake) := []

namespace Scan

/-- The bytes that the reads returned. -/
def obtained (m : Scan) : List UInt8 := m.results.flatMap ReadResult.bytes

/-- A read of the handshake has returned. -/
def record (m : Scan) (result : ReadResult .handshake) : Scan :=
  { m with results := m.results ++ [result] }

/-- The record after an action, which is taken in the state `s`. -/
def note {D : Type} (m : Scan) (s : Som D) (a : SomAction) (_ : Som D) : Scan :=
  match a, s.phase with
  | .receive piece, _ => { m with received := m.received ++ piece }
  | .done, .reading (.handshake _) _ => m.record (s.serial.completeRead .handshake).1
  | .timeout _, .reading (.handshake _) _ => m.record {}
  | _, _ => m

@[simp] theorem received_record (m : Scan) (result : ReadResult .handshake) :
    (m.record result).received = m.received := rfl

@[simp] theorem length_results_record (m : Scan) (result : ReadResult .handshake) :
    (m.record result).results.length = m.results.length + 1 := by
  simp [record]

@[simp] theorem obtained_record (m : Scan) (result : ReadResult .handshake) :
    (m.record result).obtained = m.obtained ++ result.bytes := by
  simp [record, obtained]

end Scan

/-- What a read of the handshake reported: its byte, unless it timed out. -/
def ReadResult.outcome (r : ReadResult .handshake) : Option UInt8 :=
  if r.didTimeout then none else some r.packet.handshake

/-- The bytes of a handshake's read are those of its outcome. -/
theorem ReadResult.bytes_eq_outcome (r : ReadResult .handshake) : r.bytes = r.outcome.toList := by
  unfold ReadResult.bytes ReadResult.outcome
  split_ifs
  · rfl
  · rfl

namespace Som

variable {D : Type} [Double D] {c : SomConfig D}

/-- `handshakeMCU` has just returned: true if the SoM is connected, and false if it has halted. -/
def Returned (s : Som D) : Prop := s.phase = .connected ∨ s.phase = .halted

/-! ## One attempt -/

/-- All that was received is in the record or in the buffer, and what is in the record was
consumed. -/
structure Conserved (consumed : List UInt8) (s : Som D) (m : Scan) : Prop where
  received : m.received = m.obtained ++ s.serial.streamBuffer
  consumed : s.consumed = consumed ++ m.obtained

/-- The scan and its record: before and during an attempt no acknowledgement was obtained, and the
attempt has the single byte it needs or not; after it was obtained, it is the last byte taken. -/
inductive Scanning (c : SomConfig D) (consumed : List UInt8) (s : Som D) (m : Scan) : Prop
  | attempt (attempt need : ℕ) (phase : s.phase = .reading (.handshake attempt) need)
      (lt : attempt < c.handshakeAttempts) (results : m.results.length = attempt)
      (rejected : 1 ∉ m.obtained) (buffered : need + s.serial.streamBuffer.length = 1)
      (conserved : Conserved consumed s m)
  | accepted (before : List UInt8) (phase : s.phase = .connected)
      (results : m.results.length ≤ c.handshakeAttempts) (obtained : m.obtained = before ++ [1])
      (rejected : 1 ∉ before) (buffer : s.serial.streamBuffer = [])
      (conserved : Conserved consumed s m)
  | exhausted (phase : s.phase = .halted) (results : m.results.length = c.handshakeAttempts)
      (rejected : 1 ∉ m.obtained) (buffer : s.serial.streamBuffer = [])
      (conserved : Conserved consumed s m)
  | mainLoop (inMainLoop : s.InMainLoop)

omit [Double D] in
/-- Where the next attempt begins, or none is left. -/
theorem Scanning.of_attemptPhase {consumed : List UInt8} {s : Som D} {m : Scan}
    (phase : s.phase = attemptPhase c m.results.length)
    (le : m.results.length ≤ c.handshakeAttempts) (rejected : 1 ∉ m.obtained)
    (buffer : s.serial.streamBuffer = []) (conserved : Conserved consumed s m) :
    Scanning c consumed s m := by
  unfold attemptPhase at phase
  split_ifs at phase with hlt
  · refine .attempt _ _ phase hlt rfl rejected ?_ conserved
    rw [buffer]
    rfl
  · exact .exhausted phase (by omega) rejected buffer conserved

omit [Double D] in
/-- What follows a read of the handshake: its byte is the acknowledgement, or the next attempt
begins. -/
theorem phase_finishHandshakeRead (s : Som D) (attempt : ℕ) (result : ReadResult .handshake) :
    (finishHandshakeRead c s attempt result).phase =
      if result.outcome = some 1 then .connected else attemptPhase c (attempt + 1) := by
  have hpacket : ∀ p : HandshakePacket, kHandshakePacket = p ↔ p.handshake = 1 := by
    rintro ⟨b⟩
    simp [kHandshakePacket, eq_comm]
  unfold finishHandshakeRead ReadResult.outcome
  by_cases htimeout : result.didTimeout
  · simp [htimeout]
  · simp only [htimeout, Bool.false_eq_true, if_false, hpacket, Option.some.injEq]
    split_ifs
    · rfl
    · rfl

/-- An attempt that ends with nothing in the buffer keeps to the record. -/
theorem Scanning.finishHandshakeRead {consumed : List UInt8} {s : Som D} {m : Scan} {attempt : ℕ}
    (lt : attempt < c.handshakeAttempts) (results : m.results.length = attempt)
    (rejected : 1 ∉ m.obtained) (buffer : s.serial.streamBuffer = [])
    {result : ReadResult .handshake} (received : m.received = m.obtained ++ result.bytes)
    (hconsumed : s.consumed = consumed ++ (m.obtained ++ result.bytes)) :
    Scanning c consumed (finishHandshakeRead c s attempt result) (m.record result) := by
  obtain ⟨htraffic, hserial, -⟩ := traffic_finishRead (c := c) s (.handshake attempt) result
  have hbuffer : (Som.finishHandshakeRead c s attempt result).serial.streamBuffer = [] := by
    rw [← buffer]
    exact congrArg SerialController.streamBuffer hserial
  have hconserved : Conserved consumed (Som.finishHandshakeRead c s attempt result)
      (m.record result) := by
    refine ⟨?_, ?_⟩
    · rw [Scan.received_record, Scan.obtained_record, hbuffer, received, List.append_nil]
    · rw [Scan.obtained_record, ← hconsumed]
      exact htraffic
  have hphase := phase_finishHandshakeRead (c := c) s attempt result
  split_ifs at hphase with houtcome
  · -- the acknowledgement is the last byte taken
    refine .accepted m.obtained hphase (by simpa using (by omega)) ?_ rejected hbuffer hconserved
    rw [Scan.obtained_record, ReadResult.bytes_eq_outcome, houtcome]
    rfl
  · refine .of_attemptPhase ?_ (by simpa using (by omega)) ?_ hbuffer hconserved
    · rw [hphase, Scan.length_results_record, results]
    · rw [Scan.obtained_record, ReadResult.bytes_eq_outcome, List.mem_append, Option.mem_toList]
      exact fun h => h.elim rejected houtcome

/-! ## Runs -/

/-- While a read is under way, a piece arrives, or the read is over. -/
theorem step_of_reading {s s' : Som D} {r : SomRead} {need : ℕ} (hphase : s.phase = .reading r need)
    {a : SomAction} (hstep : Som.step c s a = some s') :
    (∃ piece, a = .receive piece ∧ piece.length ≤ need ∧ s' = { s with
        serial := s.serial.append piece
        phase := .reading r (need - piece.length) }) ∨
      (a = .done ∧ need = 0 ∧ s' = completeRead c s r) ∨
      ∃ n, a = .timeout .read ∧ need = n + 1 ∧ s' = finishRead c s r {} := by
  cases a with
  | send => simp [Som.step, Som.send, hphase] at hstep
  | receive piece =>
    simp only [Som.step, Som.receive, hphase] at hstep
    split_ifs at hstep with hlen
    exact Or.inl ⟨piece, rfl, hlen, (Option.some.inj hstep).symm⟩
  | done =>
    cases need with
    | zero =>
      simp only [Som.step, Som.done, hphase] at hstep
      exact Or.inr (Or.inl ⟨rfl, rfl, (Option.some.inj hstep).symm⟩)
    | succ n => simp [Som.step, Som.done, hphase] at hstep
  | timeout o =>
    rcases timeout_eq_some hstep with ⟨-, hphase', -⟩ | ⟨r', n, rfl, hphase', rfl⟩ |
      ⟨w, b, left, -, hphase', -⟩
    · simp [hphase] at hphase'
    · rw [hphase] at hphase'
      obtain ⟨rfl, rfl⟩ := SomPhase.reading.inj hphase'
      exact Or.inr (Or.inr ⟨n, rfl, rfl, rfl⟩)
    · simp [hphase] at hphase'

/-- Once connected, the SoM goes on to the main loop. -/
theorem step_of_connected {s s' : Som D} (hphase : s.phase = .connected) {a : SomAction}
    (hstep : Som.step c s a = some s') : s'.InMainLoop := by
  cases a with
  | send => simp [Som.step, Som.send, hphase] at hstep
  | receive piece => simp [Som.step, Som.receive, hphase] at hstep
  | done =>
    simp only [Som.step, Som.done, hphase] at hstep
    obtain rfl := Option.some.inj hstep
    exact trivial
  | timeout o => cases o <;> simp [Som.step, Som.timeout, hphase] at hstep

/-- Nothing happens once the SoM has halted. -/
theorem step_of_halted {s s' : Som D} (hphase : s.phase = .halted) {a : SomAction} :
    Som.step c s a ≠ some s' := by
  intro hstep
  cases a with
  | send => simp [Som.step, Som.send, hphase] at hstep
  | receive piece => simp [Som.step, Som.receive, hphase] at hstep
  | done => simp [Som.step, Som.done, hphase] at hstep
  | timeout o => cases o <;> simp [Som.step, Som.timeout, hphase] at hstep

/-- Every action keeps to the record. -/
theorem Scanning.step {consumed : List UInt8} {s s' : Som D} {m : Scan}
    (h : Scanning c consumed s m) {a : SomAction} (hstep : Som.step c s a = some s') :
    Scanning c consumed s' (m.note s a s') := by
  cases h with
  | attempt attempt need hphase lt results rejected buffered conserved =>
    rcases step_of_reading hphase hstep with ⟨piece, rfl, hlen, rfl⟩ | ⟨rfl, rfl, rfl⟩ |
      ⟨n, rfl, rfl, rfl⟩
    · -- the piece is in the buffer now
      refine .attempt attempt (need - piece.length) rfl lt results rejected ?_ ⟨?_, ?_⟩
      · rw [SerialController.streamBuffer_append, List.length_append]
        omega
      · show m.received ++ piece = m.obtained ++ _
        rw [SerialController.streamBuffer_append, conserved.received, List.append_assoc]
      · exact conserved.consumed
    · -- the byte has arrived, and the handler takes it off the buffer
      rw [Nat.zero_add] at buffered
      have hbytes := SerialController.bytes_completeRead (t := .handshake) buffered.ge
      have hall : s.serial.streamBuffer.take PacketType.handshake.codec.size =
          s.serial.streamBuffer := List.take_of_length_le buffered.le
      rw [hall] at hbytes
      have hnote : m.note s .done (completeRead c s (.handshake attempt)) =
          m.record (s.serial.completeRead .handshake).1 := by
        simp only [Scan.note, hphase]
      rw [hnote]
      show Scanning c consumed (Som.finishHandshakeRead c { s with
        serial := (s.serial.completeRead .handshake).2
        consumed := s.consumed ++ s.serial.streamBuffer.take PacketType.handshake.codec.size }
        attempt (s.serial.completeRead .handshake).1) _
      refine Scanning.finishHandshakeRead lt results rejected ?_ ?_ ?_
      · exact List.drop_eq_nil_of_le buffered.le
      · rw [hbytes, conserved.received]
      · show s.consumed ++ s.serial.streamBuffer.take PacketType.handshake.codec.size = _
        rw [hall, hbytes, conserved.consumed, List.append_assoc]
    · -- no byte has arrived, and none is taken
      have hbuffer : s.serial.streamBuffer = [] := List.eq_nil_of_length_eq_zero (by omega)
      have hnote : m.note s (.timeout .read) (finishRead c s (.handshake attempt) {}) =
          m.record {} := by
        simp only [Scan.note, hphase]
      rw [hnote]
      refine Scanning.finishHandshakeRead lt results rejected hbuffer ?_ ?_
      · rw [conserved.received, hbuffer]
        rfl
      · rw [conserved.consumed]
        exact congrArg _ (List.append_nil _).symm
  | accepted before hphase => exact .mainLoop (step_of_connected hphase hstep)
  | exhausted hphase => exact absurd hstep (step_of_halted hphase)
  | mainLoop hloop => exact .mainLoop (inMainLoop_step hloop hstep)

variable {s₀ s : Som D} {m : Scan}

omit [Double D] in
theorem scanning_start (hphase : s₀.phase = attemptPhase c 0)
    (hbuffer : s₀.serial.streamBuffer = []) : Scanning c s₀.consumed s₀ {} :=
  .of_attemptPhase hphase (Nat.zero_le _) List.not_mem_nil hbuffer
    ⟨hbuffer.symm, (List.append_nil _).symm⟩

/-- The scan keeps to its record along every run. -/
theorem scanning_of_run (hphase : s₀.phase = attemptPhase c 0)
    (hbuffer : s₀.serial.streamBuffer = []) {acts : List SomAction}
    (h : run (watch (Som.step c) Scan.note) (s₀, {}) acts = some (s, m)) :
    Scanning c s₀.consumed s m := by
  refine run_induction (P := fun p : Som D × Scan => Scanning c s₀.consumed p.1 p.2)
    (A := fun _ => True) (scanning_start hphase hbuffer) ?_ (fun _ _ => trivial) h
  intro p a q _ hp hwatch
  obtain ⟨hstep, hnote⟩ := watch_eq_some _ hwatch
  rw [hnote]
  exact hp.step hstep

/-! ## Termination -/

/-- A read of the handshake can report a timeout, or any byte. -/
theorem exists_attempt {attempt : ℕ} (hphase : s.phase = .reading (.handshake attempt) 1)
    (hbuffer : s.serial.streamBuffer = []) (m : Scan) (outcome : Option UInt8) :
    ∃ acts s' m', run (watch (Som.step c) Scan.note) (s, m) acts = some (s', m') ∧
      m'.results.map ReadResult.outcome = m.results.map ReadResult.outcome ++ [outcome] ∧
      s'.phase = (if outcome = some 1 then .connected else attemptPhase c (attempt + 1)) ∧
      s'.serial.streamBuffer = [] := by
  cases outcome with
  | none =>
    have hstep : Som.step c s (.timeout .read) =
        some (Som.finishHandshakeRead c s attempt {}) := by
      simp only [Som.step, Som.timeout, hphase]
      rfl
    have htraffic := (traffic_finishRead (c := c) s (.handshake attempt) {}).2.1
    refine ⟨[.timeout .read], Som.finishHandshakeRead c s attempt {}, m.record {}, ?_, ?_, ?_, ?_⟩
    · simp [watch, hstep, Scan.note, hphase]
    · simp [Scan.record, ReadResult.outcome]
    · exact phase_finishHandshakeRead s attempt {}
    · rw [← hbuffer]
      exact congrArg SerialController.streamBuffer htraffic
  | some b =>
    -- the byte arrives, and is taken
    let s₁ : Som D :=
      { s with serial := s.serial.append [b], phase := .reading (.handshake attempt) 0 }
    let s₂ : Som D := { s₁ with
      serial := (s₁.serial.completeRead .handshake).2
      consumed := s₁.consumed ++ s₁.serial.streamBuffer.take PacketType.handshake.codec.size }
    have hbuffer₁ : s₁.serial.streamBuffer = [b] := by
      rw [SerialController.streamBuffer_append, hbuffer, List.nil_append]
    have hresult : (s₁.serial.completeRead .handshake).1.outcome = some b := by
      simp only [ReadResult.outcome, SerialController.completeRead, hbuffer₁]
      rfl
    have hreceive : Som.step c s (.receive [b]) = some s₁ := by
      simp [Som.step, Som.receive, hphase, s₁]
    have hdone : Som.step c s₁ .done = some (Som.finishHandshakeRead c s₂ attempt
        (s₁.serial.completeRead .handshake).1) := rfl
    have htraffic := (traffic_finishRead (c := c) s₂ (.handshake attempt)
      (s₁.serial.completeRead .handshake).1).2.1
    have hphase' := phase_finishHandshakeRead (c := c) s₂ attempt
      (s₁.serial.completeRead .handshake).1
    rw [hresult] at hphase'
    refine ⟨[.receive [b], .done], _, ({ m with received := m.received ++ [b] } : Scan).record
      (s₁.serial.completeRead .handshake).1, ?_, ?_, hphase', ?_⟩
    · rw [run_cons, watch, hreceive, Option.map_some, Option.bind_some, run_cons, watch, hdone]
      rfl
    · simp [Scan.record, hresult]
    · refine (congrArg SerialController.streamBuffer htraffic).trans ?_
      show s₁.serial.streamBuffer.drop PacketType.handshake.codec.size = []
      rw [hbuffer₁]
      rfl

/-- **The scan returns**, whatever its reads report, after a part of the reports. -/
theorem exists_scan (outcomes : List (Option UInt8)) {attempt : ℕ}
    (hattempt : attempt + outcomes.length = c.handshakeAttempts) {s : Som D}
    (hphase : s.phase = attemptPhase c attempt) (hbuffer : s.serial.streamBuffer = [])
    (m : Scan) :
    ∃ acts s' m', run (watch (Som.step c) Scan.note) (s, m) acts = some (s', m') ∧ s'.Returned ∧
      ∃ reported, reported <+: outcomes ∧
        m'.results.map ReadResult.outcome = m.results.map ReadResult.outcome ++ reported := by
  induction outcomes generalizing attempt s m with
  | nil =>
    -- no attempt is left
    have hhalted : s.phase = .halted := by
      rw [hphase, attemptPhase, if_neg (by simpa using hattempt.ge)]
    exact ⟨[], s, m, rfl, Or.inr hhalted, [], List.nil_prefix, (List.append_nil _).symm⟩
  | cons outcome outcomes ih =>
    rw [List.length_cons] at hattempt
    have hreading : s.phase = .reading (.handshake attempt) 1 := by
      rw [hphase, attemptPhase, if_pos (by omega)]
      rfl
    obtain ⟨acts, s', m', hrun, hresults, hphase', hbuffer'⟩ :=
      exists_attempt hreading hbuffer m outcome
    split_ifs at hphase' with haccepted
    · exact ⟨acts, s', m', hrun, Or.inl hphase', [outcome], ⟨outcomes, rfl⟩, hresults⟩
    · obtain ⟨acts', s'', m'', hrun', hreturned, reported, hreported, hresults'⟩ :=
        ih (by omega) hphase' hbuffer' m'
      refine ⟨acts ++ acts', s'', m'', ?_, hreturned, outcome :: reported,
        List.cons_prefix_cons.mpr ⟨rfl, hreported⟩, ?_⟩
      · rw [run_append, hrun]
        exact hrun'
      · rw [hresults', hresults, List.append_assoc]
        rfl

/-- **The scan accepts exactly at the first acknowledgement.** From an empty buffer, whatever is
received and whatever times out: when `handshakeMCU` returns, it has made at most the configured
number of reads; it returns true exactly when one of them returned the acknowledgement, having
consumed the stream up to and including the first one; it returns false after all reads; and the
buffer is empty. It does return, whatever its reads report. -/
theorem handshake_scan (hphase : s₀.phase = attemptPhase c 0)
    (hbuffer : s₀.serial.streamBuffer = []) :
    (∀ acts s m, run (watch (Som.step c) Scan.note) (s₀, {}) acts = some (s, m) → s.Returned →
      m.results.length ≤ c.handshakeAttempts ∧
        (s.phase = .connected ↔ 1 ∈ m.obtained) ∧
        (s.phase = .connected → ∀ undelivered, ∃ before : List UInt8, 1 ∉ before ∧
          m.received ++ undelivered = before ++ 1 :: undelivered ∧
          s.consumed = s₀.consumed ++ before ++ [1]) ∧
        (s.phase = .halted → m.results.length = c.handshakeAttempts) ∧
        s.serial.streamBuffer = []) ∧
      ∀ outcomes : List (Option UInt8), outcomes.length = c.handshakeAttempts →
        ∃ acts s m, run (watch (Som.step c) Scan.note) (s₀, {}) acts = some (s, m) ∧
          s.Returned ∧ m.results.map ReadResult.outcome <+: outcomes := by
  constructor
  · intro acts s m hrun hreturned
    -- a scan that has returned has accepted a byte or used up its attempts
    cases scanning_of_run hphase hbuffer hrun with
    | attempt attempt need hphase' =>
      rcases hreturned with h | h
      · simp [hphase'] at h
      · simp [hphase'] at h
    | accepted before hphase' results obtained rejected buffer conserved =>
      have hreceived : m.received = before ++ [1] := by
        rw [conserved.received, buffer, List.append_nil, obtained]
      refine ⟨results, ?_, fun _ undelivered => ⟨before, rejected, ?_, ?_⟩, ?_, buffer⟩
      · simp [hphase', obtained]
      · rw [hreceived, List.append_assoc, List.singleton_append]
      · rw [conserved.consumed, obtained, List.append_assoc]
      · simp [hphase']
    | exhausted hphase' results rejected buffer conserved =>
      refine ⟨results.le, ?_, ?_, fun _ => results, buffer⟩
      · simp [hphase', rejected]
      · simp [hphase']
    | mainLoop hloop =>
      rcases hreturned with h | h
      · simp [InMainLoop, h] at hloop
      · simp [InMainLoop, h] at hloop
  · intro outcomes hlength
    -- a schedule is built from the outcomes, one attempt after the other
    obtain ⟨acts, s, m, hrun, hreturned, reported, hreported, hresults⟩ :=
      exists_scan outcomes (by omega) hphase hbuffer {}
    refine ⟨acts, s, m, hrun, hreturned, ?_⟩
    rw [hresults]
    exact hreported

/-- The SoM with the shipped configuration, once it has flushed the line and written the handshake
byte. -/
def greeted : Som ℚ := (run (Som.step SomConfig.level) boot SomAction.greets).get rfl

/-- A timeout and another byte come before the acknowledgement. -/
theorem handshake_scan_greeted :
    ∃ s m, run (watch (Som.step SomConfig.level) Scan.note) (greeted, {})
        [.timeout .read, .receive [7], .done, .receive [1], .done] = some (s, m) ∧
      (s.phase = .connected ↔ 1 ∈ m.obtained) := by
  have hrun : run (watch (Som.step SomConfig.level) Scan.note) (greeted, {})
      [.timeout .read, .receive [7], .done, .receive [1], .done] = some (_, _) := rfl
  exact ⟨_, _, hrun, ((handshake_scan rfl rfl).1 _ _ _ hrun (Or.inl rfl)).2.1⟩

end Som

end RcPlane
