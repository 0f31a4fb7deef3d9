import RcPlane.Link.Link

/-!
# The handshake

The SoM flushes up to the line that `setup` writes, writes the handshake byte, and takes the first
byte 1 it reads for the echo. The microcontroller echoes its packet whether or not its read got
the byte. While that read has not timed out, the bytes sent before the echo hold no 1, so the one
the SoM finds is the echo.

## Main definitions

* `Mcu.Acknowledged`: the microcontroller has read the handshake byte before it echoed it
* `Som.Quiet`: what the SoM has consumed and sent in each phase of the handshake
* `Link.Agreement`: both parties agree on where the packets begin

## Main results

* `Mcu.acknowledged_invariant`, `Link.handshaking_step`: the steps keep both
* `Link.consumed_of_echo`: what is known once the SoM has consumed a 1
* `Link.agreement_of_handshaking`: where the SoM connects
-/

namespace RcPlane

open Foundation

/-! ## The microcontroller's side -/

namespace Mcu

/-- What the read of `setup` got is never changed later. -/
theorem settled_invariant (samples : Samples) (got : List UInt8) :
    Invariant samples (fun _ => True) fun m => ¬ m.Awaiting ∧ m.handshakeGot = got where
  send {m m' b} h hstep := by
    obtain ⟨w, rest, -, rfl⟩ := send_eq_some.mp hstep
    exact ⟨fun hawait => h.1 ((stage_send hstep).2.mp hawait), h.2⟩
  receive {m m' bytes} h hstep := by
    obtain ⟨r, got', -, -, rfl⟩ := receive_eq_some.mp hstep
    exact ⟨fun hawait => h.1 ((stage_receive hstep).2.mp hawait), h.2⟩
  done {m m'} h hstep := by
    obtain ⟨hawait, hgot⟩ := h
    rcases done_eq_some hstep with ⟨hphase, rfl⟩ | ⟨-, rfl⟩ | ⟨-, rfl⟩ | ⟨-, rfl⟩ |
      ⟨r, got', hphase, -, rfl⟩
    · rw [Awaiting, hphase] at hawait
      -- the line is written before the byte is awaited
      exact (hawait trivial).elim
    · exact ⟨not_false, hgot⟩
    · exact ⟨not_false, hgot⟩
    · exact ⟨not_false, hgot⟩
    · rw [Awaiting, hphase] at hawait
      cases r with
      | handshake => exact (hawait trivial).elim
      | controlSurface => exact ⟨not_false, hgot⟩
  timeout {m m' r} _ h hstep := by
    obtain ⟨hawait, hgot⟩ := h
    obtain ⟨got', hphase, -, rfl⟩ := timeout_eq_some.mp hstep
    rw [Awaiting, hphase] at hawait
    cases r with
    | handshake => exact (hawait trivial).elim
    | controlSurface => exact ⟨not_false, hgot⟩

/-- The read of `setup`, once it is over, got the whole packet; and `loop` is preceded by the line
and the echo. -/
structure Acknowledged (samples : Samples) (m : Mcu) : Prop extends m.Traced samples where
  length_handshakeGot : ¬ m.Awaiting → m.handshakeGot.length = HandshakePacket.codec.size
  preamble_eq : m.InLoop →
    m.preamble = flushLine ++ HandshakePacket.codec.encode m.handshakePacket

theorem acknowledged_boot (samples : Samples) : boot.Acknowledged samples :=
  ⟨traced_boot samples, fun hawait => absurd trivial hawait, False.elim⟩

/-- A read that is over, if it is the one of `setup`, has to have got the whole packet. -/
theorem Acknowledged.finishRead {samples : Samples} {m : Mcu} {r : McuRead} {got : List UInt8}
    (h : m.Acknowledged samples) (hphase : m.phase = .reading r got)
    (hgot : r = .handshake → got.length = HandshakePacket.codec.size) :
    (finishRead samples m r got).Acknowledged samples := by
  refine ⟨h.toTraced.finishRead hphase, ?_, ?_⟩
  · intro _
    cases r with
    | handshake => exact hgot rfl
    | controlSurface =>
      apply h.length_handshakeGot
      rw [Awaiting, hphase]
      exact not_false
  · intro hloop
    cases r with
    | handshake => exact hloop.elim
    | controlSurface =>
      apply h.preamble_eq
      rw [InLoop, hphase]
      trivial

/-- Every step but the timeout of the read of `setup` keeps the acknowledgement. -/
theorem acknowledged_invariant (samples : Samples) :
    Invariant samples (fun r => r ≠ .handshake) (Acknowledged samples) where
  send {m m' b} h hstep := by
    obtain ⟨hloop, hawait⟩ := stage_send hstep
    refine ⟨(traced_invariant samples).send h.toTraced hstep, ?_, ?_⟩
    · obtain ⟨w, rest, -, rfl⟩ := send_eq_some.mp hstep
      exact fun hn => h.length_handshakeGot fun hm => hn (hawait.mpr hm)
    · obtain ⟨w, rest, -, rfl⟩ := send_eq_some.mp hstep
      exact fun hin => h.preamble_eq (hloop.mp hin)
  receive {m m' bytes} h hstep := by
    obtain ⟨hloop, hawait⟩ := stage_receive hstep
    refine ⟨(traced_invariant samples).receive h.toTraced hstep, ?_, ?_⟩
    · obtain ⟨r, got, -, -, rfl⟩ := receive_eq_some.mp hstep
      exact fun hn => h.length_handshakeGot fun hm => hn (hawait.mpr hm)
    · obtain ⟨r, got, -, -, rfl⟩ := receive_eq_some.mp hstep
      exact fun hin => h.preamble_eq (hloop.mp hin)
  done {m m'} h hstep := by
    have htraced := (traced_invariant samples).done h.toTraced hstep
    have hgot := h.length_handshakeGot
    have hpreamble := h.preamble_eq
    rcases done_eq_some hstep with ⟨hphase, rfl⟩ | ⟨hphase, rfl⟩ | ⟨hphase, rfl⟩ |
      ⟨hphase, rfl⟩ | ⟨r, got, hphase, hlen, rfl⟩
    · exact ⟨htraced, fun hawait => absurd trivial hawait, False.elim⟩
    · -- everything sent so far is the line and the echo
      have hsent := h.sent_of_written hphase
      rw [script, hphase] at hsent
      rw [Awaiting, hphase] at hgot
      exact ⟨htraced, fun _ => hgot not_false, fun _ => hsent⟩
    · rw [Awaiting, hphase] at hgot
      rw [InLoop, hphase] at hpreamble
      exact ⟨htraced, fun _ => hgot not_false, fun _ => hpreamble trivial⟩
    · rw [Awaiting, hphase] at hgot
      rw [InLoop, hphase] at hpreamble
      exact ⟨htraced, fun _ => hgot not_false, fun _ => hpreamble trivial⟩
    · refine h.finishRead hphase ?_
      rintro rfl
      exact hlen
  timeout {m m' r} hr h hstep := by
    obtain ⟨got, hphase, -, rfl⟩ := timeout_eq_some.mp hstep
    -- only the read of `setup` is required not to time out
    exact h.finishRead hphase fun heq => absurd heq hr

end Mcu

/-! ## The SoM's side -/

/-- The byte that the handshake packet is on the line. -/
theorem encode_kHandshakePacket : HandshakePacket.codec.encode kHandshakePacket = [1] := rfl

namespace Som

variable {D : Type}

/-- Where the handshake stands: until it succeeds no 1 has been consumed, and then only the last
byte is one; the handshake byte is sent once, after the flush. -/
def Quiet (s : Som D) : Prop :=
  match s.phase with
  | .flushing => s.consumed = [] ∧ s.sent = []
  | .writing .handshake left => 1 ∉ s.consumed ∧ s.sent ++ left = [1]
  | .reading (.handshake _) _ => 1 ∉ s.consumed ∧ s.sent = [1]
  | .connected => (∃ pre, s.consumed = pre ++ [1] ∧ 1 ∉ pre) ∧ s.sent = [1]
  | _ => True

/-- `handshakeMCU` has returned true. -/
def isConnected (s : Som D) : Bool :=
  match s.phase with
  | .connected => true
  | _ => false

theorem isConnected_iff {s : Som D} : s.isConnected = true ↔ s.phase = .connected := by
  unfold isConnected
  split
  · next hphase => simp [hphase]
  · next hphase => simpa using hphase

theorem quiet_boot [Double D] : (boot : Som D).Quiet := ⟨rfl, rfl⟩

variable {c : SomConfig D}

/-- The next attempt is quiet as long as no 1 was consumed. -/
theorem quiet_of_attempt {s : Som D} {attempt : ℕ} (hphase : s.phase = attemptPhase c attempt)
    (hconsumed : 1 ∉ s.consumed) (hsent : s.sent = [1]) : s.Quiet := by
  unfold attemptPhase at hphase
  split_ifs at hphase with hleft
  · rw [Quiet, hphase]
    exact ⟨hconsumed, hsent⟩
  · rw [Quiet, hphase]
    trivial

theorem quiet_send {s s' : Som D} {b : UInt8} (h : s.Quiet) (hstep : s.send = some (b, s')) :
    s'.Quiet := by
  obtain ⟨w, rest, hphase, rfl⟩ := send_eq_some.mp hstep
  rw [Quiet, hphase] at h
  cases w with
  | handshake =>
    refine ⟨h.1, ?_⟩
    show (s.sent ++ [b]) ++ rest = [1]
    rw [List.append_assoc]
    exact h.2
  | controlSurface imuPacket => trivial

theorem quiet_receive {s s' : Som D} {piece : List UInt8} (h : s.Quiet)
    (hstep : s.receive c piece = some s') : s'.Quiet := by
  rcases receive_eq_some hstep with ⟨hphase, -, rfl⟩ | ⟨r, need, hphase, -, rfl⟩
  · rw [Quiet, hphase] at h
    rw [Quiet, hphase]
    exact h
  · rw [Quiet, hphase] at h
    cases r with
    | handshake attempt => exact h
    | rcRx => trivial
    | imu rcRx => trivial

/-- A read of the handshake stops at the first 1. -/
theorem quiet_completeRead [Double D] {s : Som D} (hbuffer : 1 ≤ s.serial.streamBuffer.length)
    (hconsumed : 1 ∉ s.consumed) (hsent : s.sent = [1]) (attempt : ℕ) :
    (completeRead c s (.handshake attempt)).Quiet := by
  -- the byte taken out of the buffer is the encoding of the packet that is compared
  have hbyte : HandshakePacket.codec.encode (s.serial.completeRead .handshake).1.packet =
      s.serial.streamBuffer.take PacketType.handshake.codec.size :=
    SerialController.bytes_completeRead (t := .handshake) hbuffer
  show (finishHandshakeRead c _ attempt (s.serial.completeRead .handshake).1).Quiet
  unfold finishHandshakeRead
  rw [SerialController.didTimeout_completeRead, if_neg Bool.false_ne_true]
  by_cases hpacket : kHandshakePacket = (s.serial.completeRead .handshake).1.packet
  · rw [if_pos hpacket]
    rw [← hpacket, encode_kHandshakePacket] at hbyte
    refine ⟨⟨s.consumed, ?_, hconsumed⟩, hsent⟩
    rw [hbyte]
    rfl
  · rw [if_neg hpacket]
    refine quiet_of_attempt rfl ?_ hsent
    show 1 ∉ s.consumed ++ s.serial.streamBuffer.take PacketType.handshake.codec.size
    rw [← hbyte]
    intro hmem
    rcases List.mem_append.mp hmem with hmem | hmem
    · exact hconsumed hmem
    · apply hpacket
      apply HandshakePacket.codec.encode_injective
      exact List.singleton_inj.mpr (List.mem_singleton.mp hmem)

/-- A completed operation keeps quiet, if there is no 1 in what a flush may drop. -/
theorem quiet_done [Double D] {s s' : Som D} (h : s.Quiet) (hbuffered : s.Buffered)
    (hflush : s.phase = .flushing → 1 ∉ s.serial.streamBuffer) (hstep : s.done c = some s') :
    s'.Quiet := by
  rcases done_eq_some hstep with ⟨size, hphase, -, rfl⟩ | ⟨w, hphase, rfl⟩ | ⟨r, hphase, rfl⟩ |
    ⟨-, rfl⟩
  · rw [Quiet, hphase] at h
    obtain ⟨hconsumed, hsent⟩ := h
    refine ⟨?_, ?_⟩
    · show 1 ∉ s.consumed ++ s.serial.streamBuffer.take (size * 2)
      rw [hconsumed, List.nil_append]
      exact fun hmem => hflush hphase (List.mem_of_mem_take hmem)
    · show s.sent ++ _ = _
      rw [hsent]
      rfl
  · rw [Quiet, hphase] at h
    cases w with
    | handshake =>
      obtain ⟨hconsumed, hsent⟩ := h
      rw [List.append_nil] at hsent
      exact quiet_of_attempt rfl hconsumed hsent
    | controlSurface imuPacket => trivial
  · rw [Quiet, hphase] at h
    cases r with
    | handshake attempt =>
      -- the byte of an attempt is taken off the buffer, whatever it is
      have hsize := (hbuffered _ _ hphase).2
      rw [Nat.zero_add] at hsize
      exact quiet_completeRead hsize h.1 h.2 attempt
    | rcRx => trivial
    | imu rcRx => trivial
  · trivial

theorem quiet_timeout [Double D] {s s' : Som D} {o : SomTimeout} (h : s.Quiet)
    (hstep : s.timeout c o = some s') : s'.Quiet := by
  rcases timeout_eq_some hstep with ⟨-, -, rfl⟩ | ⟨r, need, -, hphase, rfl⟩ |
    ⟨w, b, rest, -, -, rfl⟩
  · trivial
  · rw [Quiet, hphase] at h
    cases r with
    | handshake attempt => exact quiet_of_attempt rfl h.1 h.2
    | rcRx => trivial
    | imu rcRx => trivial
  · cases w with
    | handshake => trivial
    | controlSurface imuPacket => trivial

end Som

/-! ## Both sides -/

/-- A list is split at the first place of an element in one way. -/
theorem split_at_first {α : Type} {a : α} {xs ys zs ws : List α} (hxs : a ∉ xs) (hys : a ∉ ys)
    (h : xs ++ a :: zs = ys ++ a :: ws) : xs = ys ∧ zs = ws := by
  induction xs generalizing ys with
  | nil =>
    cases ys with
    | nil => exact ⟨rfl, (List.cons.inj h).2⟩
    | cons y ys =>
      obtain ⟨rfl, -⟩ := List.cons.inj h
      exact absurd List.mem_cons_self hys
  | cons x xs ih =>
    cases ys with
    | nil =>
      obtain ⟨rfl, -⟩ := List.cons.inj h
      exact absurd List.mem_cons_self hxs
    | cons y ys =>
      obtain ⟨rfl, htail⟩ := List.cons.inj h
      obtain ⟨rfl, rfl⟩ := ih (fun hmem => hxs (List.mem_cons_of_mem _ hmem))
        (fun hmem => hys (List.mem_cons_of_mem _ hmem)) htail
      exact ⟨rfl, rfl⟩

namespace Link

variable {D : Type}

/-- Both parties agree on where the packets begin: the microcontroller's read got the handshake
byte, and all that the SoM has sent; the SoM has consumed the line and the echo, and what is left
for it, with what the microcontroller is writing, begins with the first packet of the loop. -/
structure Agreement (samples : Samples) (t : Link D) : Prop where
  handshakeGot : t.mcu.handshakeGot = HandshakePacket.codec.encode kHandshakePacket
  received : t.mcu.received = t.mcu.handshakeGot
  toMcu : t.toMcu.pending = []
  consumed : t.som.consumed = flushLine ++ HandshakePacket.codec.encode kHandshakePacket
  toSom : ∃ n, (t.som.serial.streamBuffer ++ t.toSom.pending) ++ t.mcu.left <+:
    loopBytes samples n

/-- What is kept as long as the read of `setup` does not time out. -/
structure Handshaking (samples : Samples) (t : Link D) : Prop where
  acknowledged : t.mcu.Acknowledged samples
  buffered : t.som.Buffered
  quiet : t.som.Quiet
  conserved : t.Conserved

variable [Double D] {samples : Samples} {c : SomConfig D} {s t : Link D} {acts : List Action}

theorem handshaking_boot (samples : Samples) : (boot : Link D).Handshaking samples where
  acknowledged := Mcu.acknowledged_boot samples
  buffered r need h := by cases h
  quiet := Som.quiet_boot
  conserved := conserved_boot

omit [Double D] in
/-- Until the read of `setup` is over, nothing but the line is sent. -/
theorem one_notMem_sent {m : Mcu} (h : m.Acknowledged samples) (hawait : m.Awaiting) :
    1 ∉ m.sent := by
  have hsent : m.sent <+: flushLine := by
    refine ⟨m.left, ?_⟩
    rw [h.sent_left, Mcu.script]
    cases hphase : m.phase with
    | writing w rest =>
      rw [Mcu.Awaiting, hphase] at hawait
      cases w with
      | flush => rfl
      | echo => exact hawait.elim
      | rcRx => exact hawait.elim
      | imu => exact hawait.elim
    | reading r got =>
      rw [Mcu.Awaiting, hphase] at hawait
      cases r with
      | handshake => rfl
      | controlSurface => exact hawait.elim
  intro hmem
  exact absurd (hsent.subset hmem) (by decide)

omit [Double D] in
/-- The read of `setup` is not over before the SoM has sent something. -/
theorem awaiting_of_silent (h : t.Handshaking samples) (hsent : t.som.sent = []) :
    t.mcu.Awaiting := by
  have htoMcu := h.conserved.toMcu
  rw [hsent, h.acknowledged.received, List.append_assoc] at htoMcu
  by_contra hover
  -- a read that is over got a byte, and it was sent
  have hlen := h.acknowledged.length_handshakeGot hover
  rw [(List.append_eq_nil_iff.mp htoMcu.symm).1] at hlen
  cases hlen

omit [Double D] in
/-- A flush therefore finds no 1. -/
theorem one_notMem_streamBuffer (h : t.Handshaking samples) (hphase : t.som.phase = .flushing) :
    1 ∉ t.som.serial.streamBuffer := by
  have hquiet := h.quiet
  rw [Som.Quiet, hphase] at hquiet
  have htoSom := h.conserved.toSom
  rw [hquiet.1, List.nil_append] at htoSom
  intro hmem
  apply one_notMem_sent h.acknowledged (awaiting_of_silent h hquiet.2)
  rw [htoSom]
  exact List.mem_append_left _ hmem

/-- Every action but the timeout of the read of `setup` keeps the handshake. -/
theorem handshaking_step {a : Action} (ha : a ≠ .mcuTimeout .handshake) (h : s.Handshaking samples)
    (hstep : step samples c s a = some t) : t.Handshaking samples where
  acknowledged := by
    refine mcu_of_step (B := fun _ => True) (Mcu.acknowledged_invariant samples) ?_
      h.acknowledged hstep
    cases a with
    | mcuTimeout r => exact fun hr => ha (hr ▸ rfl)
    | _ => trivial
  buffered := by
    refine som_of_step (A := fun _ => True) (Som.buffered_invariant c) ?_ h.buffered hstep
    cases a <;> trivial
  quiet := by
    rcases som_cases hstep with heq | ⟨b, hsend⟩ | ⟨piece, hreceive⟩ | hdone | ⟨o, -, htimeout⟩
    · rw [heq]
      exact h.quiet
    · exact Som.quiet_send h.quiet hsend
    · exact Som.quiet_receive h.quiet hreceive
    · exact Som.quiet_done h.quiet h.buffered (one_notMem_streamBuffer h) hdone
    · exact Som.quiet_timeout h.quiet htimeout
  conserved := conserved_step h.conserved hstep

omit [Double D] in
/-- Once the handshake byte was read, the line, the echo and packets of the loop are all that is
sent. -/
theorem sent_of_acknowledged {m : Mcu} (h : m.Acknowledged samples)
    (hgot : m.handshakeGot = [1]) :
    ∃ rest n, m.sent ++ m.left = flushLine ++ 1 :: rest ∧ rest <+: loopBytes samples n := by
  have hawait : ¬ m.Awaiting := by
    intro hawait
    rw [h.handshakeGot hawait] at hgot
    cases hgot
  have hecho : HandshakePacket.codec.encode m.handshakePacket = [1] := by
    rw [h.handshakePacket, hgot]
    rfl
  rw [h.sent_left, Mcu.script]
  have hpreamble := h.preamble_eq
  rw [hecho] at hpreamble
  cases hphase : m.phase with
  | writing w left =>
    rw [Mcu.Awaiting, hphase] at hawait
    rw [Mcu.InLoop, hphase] at hpreamble
    cases w with
    | flush => exact (hawait trivial).elim
    | echo => exact ⟨[], 0, by rw [hecho], List.nil_prefix⟩
    | rcRx =>
      -- the loop is in the middle of an iteration
      refine ⟨_, m.rounds.length + 1, by rw [hpreamble trivial, List.append_assoc]; rfl, ?_⟩
      rw [Mcu.loopBytes_succ, ← List.append_assoc]
      exact List.prefix_append _ _
    | imu =>
      exact ⟨_, _, by rw [hpreamble trivial, List.append_assoc]; rfl, List.prefix_refl _⟩
  | reading r got =>
    rw [Mcu.Awaiting, hphase] at hawait
    rw [Mcu.InLoop, hphase] at hpreamble
    cases r with
    | handshake => exact (hawait trivial).elim
    | controlSurface =>
      exact ⟨_, _, by rw [hpreamble trivial, List.append_assoc]; rfl, List.prefix_refl _⟩

omit [Double D] in
/-- Once the SoM has consumed a 1, and has sent nothing but the handshake byte, the
microcontroller has read this byte and nothing else, and what was consumed is the line, the echo
and bytes of the loop. -/
theorem consumed_of_echo (hack : t.mcu.Acknowledged samples) (hconserved : t.Conserved)
    (hsent : t.som.sent = [1]) (hmem : 1 ∈ t.som.consumed) :
    t.mcu.handshakeGot = [1] ∧ t.mcu.received = t.mcu.handshakeGot ∧ t.toMcu.pending = [] ∧
      ∃ bytes n, t.som.consumed = flushLine ++ 1 :: bytes ∧
        bytes ++ ((t.som.serial.streamBuffer ++ t.toSom.pending) ++ t.mcu.left) <+:
          loopBytes samples n := by
  have htoSom := hconserved.toSom
  have htoMcu := hconserved.toMcu
  rw [hsent, hack.received] at htoMcu
  -- the 1 that the SoM has consumed was not sent before the read of `setup` was over
  have hover : ¬ t.mcu.Awaiting := by
    intro hawait
    apply one_notMem_sent hack hawait
    rw [htoSom]
    exact List.mem_append_left _ hmem
  have hgot : t.mcu.handshakeGot = [1] ∧
      (t.mcu.rounds.flatMap Round.got ++ t.mcu.got) ++ t.toMcu.pending = [] := by
    obtain ⟨b, hb⟩ := List.length_eq_one_iff.mp (hack.length_handshakeGot hover)
    rw [hb, List.append_assoc, List.singleton_append] at htoMcu
    obtain ⟨rfl, hrest⟩ := List.cons.inj htoMcu
    exact ⟨hb, hrest.symm⟩
  obtain ⟨hgot, hrest⟩ := hgot
  obtain ⟨hlater, hpending⟩ := List.append_eq_nil_iff.mp hrest
  refine ⟨hgot, ?_, hpending, ?_⟩
  · rw [hack.received, hlater, List.append_nil]
  · obtain ⟨rest, n, hscript, hloop⟩ := sent_of_acknowledged hack hgot
    rw [htoSom, List.append_assoc] at hscript
    rcases List.append_eq_append_iff.mp hscript with ⟨back, hline, -⟩ | ⟨back, hback, hrest⟩
    · -- there is no 1 in the line
      have hline' : 1 ∈ flushLine := by
        rw [hline]
        exact List.mem_append_left _ hmem
      exact absurd hline' (by decide)
    · cases back with
      | nil =>
        rw [hback, List.append_nil] at hmem
        exact absurd hmem (by decide)
      | cons b bytes =>
        obtain ⟨rfl, rfl⟩ := List.cons.inj hrest
        exact ⟨bytes, n, hback, hloop⟩

omit [Double D] in
/-- Where the SoM connects, both parties agree. -/
theorem agreement_of_handshaking (h : t.Handshaking samples) (hphase : t.som.phase = .connected) :
    t.Agreement samples := by
  have hquiet := h.quiet
  rw [Som.Quiet, hphase] at hquiet
  obtain ⟨⟨pre, hconsumed, hpre⟩, hsent⟩ := hquiet
  have hmem : 1 ∈ t.som.consumed := by
    rw [hconsumed]
    simp
  obtain ⟨hgot, hreceived, hpending, bytes, n, hbytes, hloop⟩ :=
    consumed_of_echo h.acknowledged h.conserved hsent hmem
  -- the first 1 that was consumed is the echo
  rw [hconsumed] at hbytes
  obtain ⟨rfl, rfl⟩ := split_at_first hpre (by decide) hbytes
  exact ⟨hgot, hreceived, hpending, hconsumed, n, hloop⟩

end Link

end RcPlane
