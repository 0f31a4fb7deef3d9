import RcPlane.Link.Handshake

/-!
# Handshake agreement

`wait_for` may also expire when the operation is over but its completion handler has not fulfilled
the promise yet: the call then reports a timeout, `cancel` has nothing left to cancel, and what the
handler does stays done. A read of the handshake that gives up like this takes its byte off the
stream. If that byte is the echo, nothing but a byte of a packet can be taken for it afterwards.

## Main definitions

* `Som.expire`: the wait for a complete operation expires
* `LateAction`, `Link.lateStep`: the steps of the link with late timeouts
* `Link.KeepsEcho`: the step does not lose the echo
* `Link.Agreed`: both parties agree on where the packets begin

## Main results

* `Link.courteous_lateStep`, `Link.handshaking_lateStep`: what the steps keep
* `Link.agreed_of_run`: every run that connects, whatever times out and however late
-/

namespace RcPlane

open Foundation

/-! ## Waits that expire late -/

namespace Som

variable {D : Type} [Double D] {c : SomConfig D}

variable (c) in
/-- The wait for the operation under way expires although the operation is complete. Its handler
has no error to see, so it takes the bytes off the buffer as ever. -/
def expire (s : Som D) : Option (Som D) :=
  match s.phase with
  | .flushing =>
    -- the assertion on the result of `flush` fails
    (SerialController.untilSize c.handshakeTerminationStr s.serial.streamBuffer).map
      fun size => { finishFlush s size with phase := .halted }
  | .writing w [] => some (finishWrite c s w false)
  | .reading r 0 =>
    some (finishRead c
      { s with
        serial := (s.serial.completeRead r.type).2
        consumed := s.consumed ++ s.serial.streamBuffer.take r.type.codec.size }
      r {})
  | _ => none

/-- A read of the handshake is complete, and its byte is the acknowledgement. -/
def Acknowledging (s : Som D) : Prop :=
  match s.phase with
  | .reading (.handshake _) 0 => s.serial.streamBuffer.head? = some 1
  | _ => False

instance (s : Som D) : Decidable s.Acknowledging := by
  unfold Acknowledging
  split <;> infer_instance

theorem expire_eq_some {s s' : Som D} (h : s.expire c = some s') :
    (∃ size, s.phase = .flushing ∧
      SerialController.untilSize c.handshakeTerminationStr s.serial.streamBuffer = some size ∧
      s' = { finishFlush s size with phase := .halted }) ∨
    (∃ w, s.phase = .writing w [] ∧ s' = finishWrite c s w false) ∨
    ∃ r, s.phase = .reading r 0 ∧
      s' = finishRead c
        { s with
          serial := (s.serial.completeRead r.type).2
          consumed := s.consumed ++ s.serial.streamBuffer.take r.type.codec.size }
        r {} := by
  unfold expire at h
  split at h
  · next hphase =>
    obtain ⟨size, hsize, rfl⟩ := Option.map_eq_some_iff.mp h
    exact Or.inl ⟨size, hphase, hsize, rfl⟩
  · next w hphase => exact Or.inr (Or.inl ⟨w, hphase, (Option.some.inj h).symm⟩)
  · next r hphase => exact Or.inr (Or.inr ⟨r, hphase, (Option.some.inj h).symm⟩)
  · cases h

/-- A late timeout moves bytes out of the buffer at most. -/
theorem traffic_expire {s s' : Som D} (h : s.expire c = some s') :
    s.consumed ++ s.serial.streamBuffer = s'.consumed ++ s'.serial.streamBuffer ∧
      s'.sent = s.sent := by
  rcases expire_eq_some h with ⟨size, -, -, rfl⟩ | ⟨w, -, rfl⟩ | ⟨r, -, rfl⟩
  · refine ⟨?_, rfl⟩
    show _ = (s.consumed ++ s.serial.streamBuffer.take _) ++ s.serial.streamBuffer.drop _
    rw [List.append_assoc, List.take_append_drop]
  · obtain ⟨hconsumed, hserial, hsent⟩ := traffic_finishWrite (c := c) s w false
    rw [hconsumed, hserial]
    exact ⟨rfl, hsent⟩
  · obtain ⟨hconsumed, hserial, hsent⟩ := traffic_finishRead (c := c) (s := { s with
      serial := (s.serial.completeRead r.type).2
      consumed := s.consumed ++ s.serial.streamBuffer.take r.type.codec.size }) r {}
    refine ⟨?_, hsent⟩
    rw [hconsumed, hserial]
    show _ = (s.consumed ++ s.serial.streamBuffer.take _) ++ s.serial.streamBuffer.drop _
    rw [List.append_assoc, List.take_append_drop]

theorem buffered_expire {s s' : Som D} (h : s.expire c = some s') : s'.Buffered := by
  rcases expire_eq_some h with ⟨size, -, -, rfl⟩ | ⟨w, -, rfl⟩ | ⟨r, -, rfl⟩
  · intro r need hphase
    cases hphase
  · exact (starts_finishWrite s w false).buffered
  · exact (starts_finishRead _ r {}).buffered

/-- The byte that a late timeout of a handshake read takes off the buffer is no 1, unless it is an
acknowledgement. -/
theorem quiet_expire {s s' : Som D} (h : s.Quiet) (hkeeps : ¬ s.Acknowledging)
    (hstep : s.expire c = some s') : s'.Quiet := by
  rcases expire_eq_some hstep with ⟨size, -, -, rfl⟩ | ⟨w, -, rfl⟩ | ⟨r, hphase, rfl⟩
  · trivial
  · cases w with
    | handshake => trivial
    | controlSurface imuPacket => trivial
  · rw [Quiet, hphase] at h
    cases r with
    | handshake attempt =>
      rw [Acknowledging, hphase] at hkeeps
      refine quiet_of_attempt rfl ?_ h.2
      -- the handler adds one byte to what was consumed, and it is not the echo
      show 1 ∉ s.consumed ++ s.serial.streamBuffer.take 1
      intro hmem
      rcases List.mem_append.mp hmem with hmem | hmem
      · exact h.1 hmem
      · cases hbuffer : s.serial.streamBuffer with
        | nil =>
          rw [hbuffer] at hmem
          cases hmem
        | cons b rest =>
          rw [hbuffer] at hmem
          apply hkeeps
          rw [hbuffer, List.mem_singleton.mp hmem]
          rfl
    | rcRx => trivial
    | imu rcRx => trivial

/-! ## What the SoM sends before it connects -/

/-- The handshake byte is all that is sent before the SoM connects, and then a 1 was consumed. -/
def Courteous (s : Som D) : Prop :=
  match s.phase with
  | .flushing => s.sent = []
  | .writing .handshake left => s.sent ++ left = [1]
  | .reading (.handshake _) _ => s.sent = [1]
  | .connected => s.sent = [1] ∧ 1 ∈ s.consumed
  | _ => True

omit [Double D] in
theorem courteous_of_attempt {s : Som D} {attempt : ℕ}
    (hphase : s.phase = attemptPhase c attempt) (hsent : s.sent = [1]) : s.Courteous := by
  unfold attemptPhase at hphase
  split_ifs at hphase with hleft
  · rw [Courteous, hphase]
    exact hsent
  · rw [Courteous, hphase]
    trivial

/-- An attempt connects on the byte that it has taken off the buffer. -/
theorem courteous_completeRead {s : Som D} (hbuffer : 1 ≤ s.serial.streamBuffer.length)
    (hsent : s.sent = [1]) (attempt : ℕ) : (completeRead c s (.handshake attempt)).Courteous := by
  have hbyte : HandshakePacket.codec.encode (s.serial.completeRead .handshake).1.packet =
      s.serial.streamBuffer.take PacketType.handshake.codec.size :=
    SerialController.bytes_completeRead (t := .handshake) hbuffer
  show (finishHandshakeRead c _ attempt (s.serial.completeRead .handshake).1).Courteous
  unfold finishHandshakeRead
  rw [SerialController.didTimeout_completeRead, if_neg Bool.false_ne_true]
  split_ifs with hpacket
  · rw [← hpacket, encode_kHandshakePacket] at hbyte
    refine ⟨hsent, ?_⟩
    show 1 ∈ s.consumed ++ s.serial.streamBuffer.take PacketType.handshake.codec.size
    rw [← hbyte]
    simp
  · exact courteous_of_attempt rfl hsent

/-- Every step keeps to the one byte. -/
theorem courteous_invariant (c : SomConfig D) :
    Invariant c (fun _ => True) fun s => s.Buffered ∧ s.Courteous where
  send {s s' b} h hstep := by
    refine ⟨(buffered_invariant c).send h.1 hstep, ?_⟩
    -- the byte goes from what is left to what was sent
    obtain ⟨w, rest, hphase, rfl⟩ := send_eq_some.mp hstep
    have hsent := h.2
    rw [Courteous, hphase] at hsent
    cases w with
    | handshake =>
      show (s.sent ++ [b]) ++ rest = [1]
      rw [List.append_assoc]
      exact hsent
    | controlSurface imuPacket => trivial
  receive {s s' piece} h hstep := by
    refine ⟨(buffered_invariant c).receive h.1 hstep, ?_⟩
    have hsent := h.2
    rcases receive_eq_some hstep with ⟨hphase, -, rfl⟩ | ⟨r, need, hphase, -, rfl⟩
    · rw [Courteous, hphase] at hsent
      rw [Courteous, hphase]
      exact hsent
    · rw [Courteous, hphase] at hsent
      cases r with
      | handshake attempt => exact hsent
      | rcRx => trivial
      | imu rcRx => trivial
  done {s s'} h hstep := by
    refine ⟨(buffered_invariant c).done h.1 hstep, ?_⟩
    obtain ⟨hbuffered, hsent⟩ := h
    rcases done_eq_some hstep with ⟨size, hphase, -, rfl⟩ | ⟨w, hphase, rfl⟩ | ⟨r, hphase, rfl⟩ |
      ⟨-, rfl⟩
    · rw [Courteous, hphase] at hsent
      -- the line has been found, and the handshake byte is about to be written
      show s.sent ++ _ = _
      rw [hsent]
      rfl
    · rw [Courteous, hphase] at hsent
      cases w with
      | handshake =>
        have hall : s.sent ++ [] = [1] := hsent
        rw [List.append_nil] at hall
        exact courteous_of_attempt rfl hall
      | controlSurface imuPacket => trivial
    · rw [Courteous, hphase] at hsent
      cases r with
      | handshake attempt =>
        -- a read that is complete has its byte in the buffer
        have hsize := (hbuffered _ _ hphase).2
        rw [Nat.zero_add] at hsize
        exact courteous_completeRead hsize hsent attempt
      | rcRx => trivial
      | imu rcRx => trivial
    · trivial
  timeout {s s' o} _ h hstep := by
    refine ⟨(buffered_invariant c).timeout trivial h.1 hstep, ?_⟩
    have hsent := h.2
    rcases timeout_eq_some hstep with ⟨-, -, rfl⟩ | ⟨r, need, -, hphase, rfl⟩ |
      ⟨w, b, rest, -, -, rfl⟩
    · trivial
    · rw [Courteous, hphase] at hsent
      cases r with
      | handshake attempt => exact courteous_of_attempt rfl hsent
      | rcRx => trivial
      | imu rcRx => trivial
    · cases w with
      | handshake => trivial
      | controlSurface imuPacket => trivial

theorem courteous_expire {s s' : Som D} (h : s.Courteous) (hstep : s.expire c = some s') :
    s'.Courteous := by
  rcases expire_eq_some hstep with ⟨size, -, -, rfl⟩ | ⟨w, -, rfl⟩ | ⟨r, hphase, rfl⟩
  · trivial
  · cases w with
    | handshake => trivial
    | controlSurface imuPacket => trivial
  · rw [Courteous, hphase] at h
    cases r with
    | handshake attempt => exact courteous_of_attempt rfl h
    | rcRx => trivial
    | imu rcRx => trivial

end Som

/-! ## The link -/

/-- What can happen when waits may also expire late. -/
inductive LateAction
  | timely (a : Action)
  | somLate
deriving DecidableEq, Repr

namespace Link

variable {D : Type} [Double D]

section Steps

variable (samples : Samples) (c : SomConfig D)

/-- The effect of an action, if it can be taken. -/
def lateStep (s : Link D) : LateAction → Option (Link D)
  | .timely a => step samples c s a
  | .somLate => (s.som.expire c).map fun som => { s with som := som }

end Steps

/-- The action is no late timeout of a read that has the echo. -/
def KeepsEcho (s : Link D) (a : LateAction) : Prop := a = .somLate → ¬ s.som.Acknowledging

instance (s : Link D) (a : LateAction) : Decidable (KeepsEcho s a) :=
  inferInstanceAs (Decidable (a = .somLate → ¬ s.som.Acknowledging))

variable {samples : Samples} {c : SomConfig D} {s t : Link D} {acts : List LateAction}

/-- Both parties agree on where the packets begin: the microcontroller's read got the handshake
byte, which is all that the SoM has sent; the SoM has consumed the line, the echo and whole
iterations of `loop`, and what is left for it continues with the next one. -/
structure Agreed (samples : Samples) (t : Link D) : Prop where
  handshakeGot : t.mcu.handshakeGot = HandshakePacket.codec.encode kHandshakePacket
  received : t.mcu.received = t.mcu.handshakeGot
  toMcu : t.toMcu.pending = []
  toSom : ∃ k n,
    t.som.consumed = flushLine ++ HandshakePacket.codec.encode kHandshakePacket ++
      loopBytes samples k ∧
    t.som.consumed ++ ((t.som.serial.streamBuffer ++ t.toSom.pending) ++ t.mcu.left) <+:
      flushLine ++ HandshakePacket.codec.encode kHandshakePacket ++ loopBytes samples n

/-! ## What the steps keep -/

/-- What is kept as long as the read of `setup` does not time out, also when the echo is lost. -/
structure Greeting (samples : Samples) (t : Link D) : Prop where
  acknowledged : t.mcu.Acknowledged samples
  buffered : t.som.Buffered
  courteous : t.som.Courteous
  conserved : t.Conserved

theorem greeting_boot (samples : Samples) : (boot : Link D).Greeting samples where
  acknowledged := Mcu.acknowledged_boot samples
  buffered r need h := by cases h
  courteous := rfl
  conserved := conserved_boot

/-- A late timeout conserves the bytes. -/
theorem conserved_expire {som : Som D} (hs : s.Conserved) (h : s.som.expire c = some som) :
    Conserved { s with som := som } := by
  obtain ⟨htoSom, htoMcu⟩ := hs
  obtain ⟨hconsumed, hsent⟩ := Som.traffic_expire h
  refine ⟨?_, hsent ▸ htoMcu⟩
  show s.mcu.sent = som.consumed ++ (som.serial.streamBuffer ++ s.toSom.pending)
  rw [htoSom, ← List.append_assoc, ← List.append_assoc, hconsumed]

/-- Every action but the timeout of the read of `setup` keeps the greeting. -/
theorem greeting_lateStep {a : LateAction} (ha : a ≠ .timely (.mcuTimeout .handshake))
    (h : s.Greeting samples) (hstep : lateStep samples c s a = some t) : t.Greeting samples := by
  cases a with
  | timely a =>
    have hsom : t.som.Buffered ∧ t.som.Courteous := by
      refine som_of_step (A := fun _ => True) (Som.courteous_invariant c) ?_
        ⟨h.buffered, h.courteous⟩ hstep
      cases a <;> trivial
    refine ⟨?_, hsom.1, hsom.2, conserved_step h.conserved hstep⟩
    refine mcu_of_step (B := fun _ => True) (Mcu.acknowledged_invariant samples) ?_
      h.acknowledged hstep
    cases a with
    | mcuTimeout r => exact fun hr => ha (hr ▸ rfl)
    | _ => trivial
  | somLate =>
    obtain ⟨som, hsom, rfl⟩ := Option.map_eq_some_iff.mp hstep
    exact ⟨h.acknowledged, Som.buffered_expire hsom, Som.courteous_expire h.courteous hsom,
      conserved_expire h.conserved hsom⟩

/-- As long as the echo is not lost either, the first 1 consumed is the echo. -/
theorem handshaking_lateStep {a : LateAction} (ha : a ≠ .timely (.mcuTimeout .handshake))
    (hkeeps : KeepsEcho s a) (h : s.Handshaking samples)
    (hstep : lateStep samples c s a = some t) : t.Handshaking samples := by
  cases a with
  | timely a => exact handshaking_step (fun heq => ha (heq ▸ rfl)) h hstep
  | somLate =>
    obtain ⟨som, hsom, rfl⟩ := Option.map_eq_some_iff.mp hstep
    exact ⟨h.acknowledged, Som.buffered_expire hsom,
      Som.quiet_expire h.quiet (hkeeps rfl) hsom, conserved_expire h.conserved hsom⟩

/-! ## Where the SoM connects -/

omit [Double D] in
/-- Whole iterations of `loop` are told by the number of their bytes. -/
theorem eq_loopBytes_of_dvd {bytes rest : List UInt8} {n : ℕ}
    (h : bytes ++ rest <+: loopBytes samples n) (hdvd : loopCodec.size ∣ bytes.length) :
    ∃ k, bytes = loopBytes samples k := by
  obtain ⟨k, hk⟩ := hdvd
  refine ⟨min k n, ?_⟩
  -- the bytes are the front of the stream of their length
  have hfront := List.prefix_iff_eq_take.mp ((List.prefix_append bytes rest).trans h)
  rw [hk, loopBytes, Codec.take_encodeAll, ← List.map_take, List.take_range] at hfront
  exact hfront

omit [Double D] in
/-- Where both parties agree, whole iterations were consumed after the line and the echo. -/
theorem Agreed.length_consumed (h : t.Agreed samples) :
    t.som.consumed.length % loopCodec.size = flushLine.length + 1 := by
  obtain ⟨k, -, hk, -⟩ := h.toSom
  rw [hk, List.length_append, List.length_append, encode_kHandshakePacket, loopBytes,
    Codec.length_encodeAll, Nat.add_mul_mod_self_left]
  rfl

omit [Double D] in
/-- Both parties agree exactly when whole iterations were consumed after the echo. -/
theorem agreed_iff_of_greeting (h : t.Greeting samples) (hphase : t.som.phase = .connected) :
    t.Agreed samples ↔ t.som.consumed.length % loopCodec.size = flushLine.length + 1 := by
  have hcourteous := h.courteous
  rw [Som.Courteous, hphase] at hcourteous
  obtain ⟨hgot, hreceived, hpending, bytes, n, hconsumed, hloop⟩ :=
    consumed_of_echo h.acknowledged h.conserved hcourteous.1 hcourteous.2
  have hlen : t.som.consumed.length = (flushLine.length + 1) + bytes.length := by
    rw [hconsumed, List.length_append, List.length_cons]
    omega
  refine ⟨Agreed.length_consumed, fun hmod => ?_⟩
  have hdvd : loopCodec.size ∣ bytes.length := by
    rw [hlen] at hmod
    change (8 + bytes.length) % 37 = 8 at hmod
    rw [size_loopCodec]
    omega
  obtain ⟨k, rfl⟩ := eq_loopBytes_of_dvd hloop hdvd
  refine ⟨hgot, hreceived, hpending, k, n, ?_, ?_⟩
  · rw [hconsumed, encode_kHandshakePacket, List.append_assoc]
    rfl
  · rw [hconsumed, encode_kHandshakePacket, ← List.singleton_append, ← List.append_assoc flushLine,
      List.append_assoc]
    exact (List.prefix_append_right_inj _).mpr hloop

/-! ## Runs -/

/-- Once the read of `setup` has timed out, it has got nothing for good. -/
theorem handshakeGot_of_timeout (h : run (lateStep samples c) boot acts = some t)
    (htimeout : .timely (.mcuTimeout .handshake) ∈ acts) : t.mcu.handshakeGot = [] := by
  obtain ⟨acts₁, acts₂, rfl⟩ := List.append_of_mem htimeout
  rw [run_append] at h
  obtain ⟨u, hu, h⟩ := Option.bind_eq_some_iff.mp h
  obtain ⟨v, hv, h⟩ := Option.bind_eq_some_iff.mp h
  -- at the timeout the read had got fewer bytes than the one it asks for
  have hsettled : ¬ v.mcu.Awaiting ∧ v.mcu.handshakeGot = [] := by
    obtain ⟨m, hm, rfl⟩ := Option.map_eq_some_iff.mp hv
    obtain ⟨got, -, hlen, rfl⟩ := Mcu.timeout_eq_some.mp hm
    exact ⟨not_false, List.eq_nil_of_length_eq_zero (Nat.lt_one_iff.mp hlen)⟩
  refine (run_induction (P := fun s : Link D => ¬ s.mcu.Awaiting ∧ s.mcu.handshakeGot = [])
    (A := fun _ => True) hsettled (fun s a t _ hs hstep => ?_) (fun _ _ => trivial) h).2
  cases a with
  | timely a =>
    refine mcu_of_step (A := fun _ => True) (B := fun _ => True)
      (Mcu.settled_invariant samples []) ?_ hs hstep
    cases a <;> trivial
  | somLate =>
    obtain ⟨som, -, rfl⟩ := Option.map_eq_some_iff.mp hstep
    exact hs

/-- **Handshake agreement.** In every run from the start of both programs in which the SoM
connects, whatever times out and however late, both parties agree if the read of `setup` has not
timed out and no read of the handshake that had the echo has. If the read of `setup` has timed out
they never do, and otherwise they do exactly when the bytes taken after the echo happened to end
with an iteration of `loop`. -/
theorem agreed_of_run (h : run (lateStep samples c) boot acts = some t)
    (hphase : t.som.phase = .connected) :
    (.timely (.mcuTimeout .handshake) ∉ acts → Meets (lateStep samples c) KeepsEcho boot acts →
      t.Agreed samples) ∧
    (.timely (.mcuTimeout .handshake) ∈ acts → ¬ t.Agreed samples) ∧
    (.timely (.mcuTimeout .handshake) ∉ acts → (t.Agreed samples ↔
      t.som.consumed.length % loopCodec.size = flushLine.length + 1)) := by
  have hexact : .timely (.mcuTimeout .handshake) ∉ acts → (t.Agreed samples ↔
      t.som.consumed.length % loopCodec.size = flushLine.length + 1) := by
    intro htimeout
    refine agreed_iff_of_greeting ?_ hphase
    refine run_induction (A := fun a => a ≠ .timely (.mcuTimeout .handshake))
      (greeting_boot samples) (fun _ _ _ ha hs hstep => greeting_lateStep ha hs hstep) ?_ h
    rintro a hmem rfl
    exact htimeout hmem
  refine ⟨fun htimeout hmeets => ?_, fun htimeout hagreed => ?_, hexact⟩
  · have hadmitted : ∀ a ∈ acts, a ≠ .timely (.mcuTimeout .handshake) := by
      rintro a hmem rfl
      exact htimeout hmem
    have hkept : t.Handshaking samples :=
      run_induction_of_meets (handshaking_boot samples)
        (fun _ _ _ hc hs hstep => handshaking_lateStep hc.2 hc.1 hs hstep)
        (hmeets.and_forall hadmitted) h
    -- the echo is the last byte consumed
    rw [hexact htimeout, (agreement_of_handshaking hkept hphase).consumed]
    rfl
  · -- the handshake byte is never read
    have hgot := hagreed.handshakeGot
    rw [handshakeGot_of_timeout h htimeout] at hgot
    cases hgot

/-- The handshake byte reaches the microcontroller, and its echo the SoM. -/
def echoed : List Action :=
  bootLine ++ somGreets ++
    [.deliverToMcu, .mcuReceive, .mcuDone, .mcuSend, .mcuDone, .deliverToSom, .somReceive 1]

/-- A byte reaches the SoM, whose read it completes. -/
def byteRead : List Action := [.deliverToSom, .somReceive 1, .somDone]

/-- With a terminator that ends before the line does, the read that takes the last byte of the line
gives up late, and the one after it takes the echo. -/
theorem agreed_lateLine :
    ∃ t : Link ℚ, run (lateStep (Samples.steady {} {})
        { SomConfig.level with handshakeTerminationStr := [102, 108, 117] }) boot
        (echoed.map .timely ++ .somLate :: (Action.mcuSend :: byteRead).map .timely) = some t ∧
      t.Agreed (Samples.steady {} {}) := by
  have hany : (run (lateStep (Samples.steady {} {})
      { SomConfig.level with handshakeTerminationStr := [102, 108, 117] }) boot
      (echoed.map .timely ++ .somLate :: (Action.mcuSend :: byteRead).map .timely)).any
        fun t => t.som.isConnected := by
    decide +kernel
  obtain ⟨t, ht, hconnected⟩ := (Option.any_eq_true _ _).mp hany
  exact ⟨t, ht, (agreed_of_run ht (Som.isConnected_iff.mp hconnected)).1 (by decide)
    (by decide +kernel)⟩

/-- The SoM connects on the state of the first packet, in which the user's roll flag is set: when
the read of `setup` times out before the handshake byte arrives, so that the echo is 0, and when
the read of the handshake that has the echo gives up late. -/
theorem agreed_mistaken :
    (∃ t : Link ℚ, run (lateStep (Samples.steady { state := 1, aileronStickPosition := 50 } {})
        .level) boot ((bootLine ++ [Action.mcuTimeout .handshake, .mcuSend, .mcuDone] ++
          loopWrites ++ somGreets ++ (List.replicate 6 byteRead).flatten).map .timely) = some t ∧
      t.som.phase = .connected ∧ t.mcu.handshakeGot = [] ∧ t.toMcu.pending = [1] ∧
      ¬ t.Agreed (Samples.steady { state := 1, aileronStickPosition := 50 } {})) ∧
    ∃ t : Link ℚ, run (lateStep (Samples.steady { state := 1, aileronStickPosition := 50 } {})
        .level) boot (echoed.map .timely ++ .somLate ::
          (loopWrites ++ (List.replicate 5 byteRead).flatten).map .timely) = some t ∧
      t.som.phase = .connected ∧ t.mcu.handshakeGot = [1] ∧ t.som.consumed.length = 13 ∧
      ¬ t.Agreed (Samples.steady { state := 1, aileronStickPosition := 50 } {}) := by
  constructor
  · have hany : (run (lateStep (Samples.steady { state := 1, aileronStickPosition := 50 } {})
        SomConfig.level) boot ((bootLine ++ [Action.mcuTimeout .handshake, .mcuSend, .mcuDone] ++
          loopWrites ++ somGreets ++ (List.replicate 6 byteRead).flatten).map .timely)).any
          fun t => t.som.isConnected && decide (t.mcu.handshakeGot = []) &&
            decide (t.toMcu.pending = [1]) := by
      decide +kernel
    obtain ⟨t, ht, hall⟩ := (Option.any_eq_true _ _).mp hany
    simp only [Bool.and_eq_true, decide_eq_true_eq, Som.isConnected_iff] at hall
    obtain ⟨⟨hconnected, hgot⟩, hpending⟩ := hall
    -- the read of `setup` got nothing, so that the byte of the SoM is still on its way
    refine ⟨t, ht, hconnected, hgot, hpending, fun hagreed => ?_⟩
    have hread := hagreed.handshakeGot
    rw [hgot] at hread
    cases hread
  · have hany : (run (lateStep (Samples.steady { state := 1, aileronStickPosition := 50 } {})
        SomConfig.level) boot (echoed.map .timely ++ .somLate ::
          (loopWrites ++ (List.replicate 5 byteRead).flatten).map .timely)).any
          fun t => t.som.isConnected && decide (t.mcu.handshakeGot = [1]) &&
            decide (t.som.consumed.length = 13) := by
      decide +kernel
    obtain ⟨t, ht, hall⟩ := (Option.any_eq_true _ _).mp hany
    simp only [Bool.and_eq_true, decide_eq_true_eq, Som.isConnected_iff] at hall
    obtain ⟨⟨hconnected, hgot⟩, hlength⟩ := hall
    refine ⟨t, ht, hconnected, hgot, hlength, fun hagreed => ?_⟩
    -- eight bytes are the line and the echo, and five are no whole iteration
    have hmod := hagreed.length_consumed
    rw [hlength] at hmod
    exact absurd hmod (by decide)

end Link

end RcPlane
