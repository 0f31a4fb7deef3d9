import RcPlane.Link.Handshake
import RcPlane.Link.ReadIntegrity
import RcPlane.Som.Handover

/-!
# From power-on

Both programs start with nothing agreed between them. What the two loops keep from an aligned start
they also keep after the handshake, once the bytes of the line and of the echo are taken out of
the history: so the properties of aligned runs are properties of the runs from power-on in which
the read of `setup` does not time out. The microcontroller may be in `loop` while the SoM has not
seen the echo yet, and the SoM may be in its main loop while the microcontroller is still at the
end of the write of the echo.

## Main definitions

* `Mcu.sinceSetup`, `Link.sinceHandshake`: the history without the bytes of the handshake
* `Link.Begun`: the handshake byte was read, and the SoM's main loop is behind the echo
* `Link.PoweredOn`: what is kept from power-on

## Main results

* `Link.poweredOn_step`: every step but the timeout of the read of `setup` keeps it
* `Link.looping_of_boot`: after the handshake, the invariant of the two loops
* `Link.integrity_of_boot`: packet integrity from power-on
-/

namespace RcPlane

open Foundation SerialController

/-! ## `loop` alone -/

namespace Mcu

/-- `loop` with the bytes of `setup` taken out of the history; before `loop`, its start. -/
def sinceSetup (samples : Samples) (m : Mcu) : Mcu :=
  match m.phase with
  | .writing .flush _ => aligned samples
  | .reading .handshake _ => aligned samples
  | .writing .echo _ => aligned samples
  | _ =>
    { m with
      handshakePacket := {}
      sent := m.sent.drop m.preamble.length
      received := m.received.drop m.handshakeGot.length
      preamble := []
      handshakeGot := [] }

variable {samples : Samples} {m : Mcu}

theorem sinceSetup_of_inLoop (h : m.InLoop) : m.sinceSetup samples =
    { m with
      handshakePacket := {}
      sent := m.sent.drop m.preamble.length
      received := m.received.drop m.handshakeGot.length
      preamble := []
      handshakeGot := [] } := by
  rw [InLoop] at h
  rw [sinceSetup]
  cases hphase : m.phase with
  | writing w left =>
    rw [hphase] at h
    cases w with
    | flush => exact h.elim
    | echo => exact h.elim
    | rcRx => rfl
    | imu => rfl
  | reading r got =>
    rw [hphase] at h
    cases r with
    | handshake => exact h.elim
    | controlSurface => rfl

theorem sinceSetup_of_not_inLoop (h : ¬ m.InLoop) : m.sinceSetup samples = aligned samples := by
  rw [InLoop] at h
  rw [sinceSetup]
  cases hphase : m.phase with
  | writing w left =>
    rw [hphase] at h
    cases w with
    | flush => rfl
    | echo => rfl
    | rcRx => exact (h trivial).elim
    | imu => exact (h trivial).elim
  | reading r got =>
    rw [hphase] at h
    cases r with
    | handshake => rfl
    | controlSurface => exact (h trivial).elim

/-- The rounds are those of `loop` alone. -/
theorem rounds_sinceSetup (samples : Samples) (h : m.Logged) :
    (m.sinceSetup samples).rounds = m.rounds := by
  by_cases hloop : m.InLoop
  · rw [sinceSetup_of_inLoop hloop]
  · rw [sinceSetup_of_not_inLoop hloop, h.setup hloop]
    rfl

/-- What is kept from the start of `setup` is kept of `loop` alone. -/
theorem traced_sinceSetup (h : m.Traced samples) (hloop : m.InLoop)
    (hpreamble : m.preamble <+: m.sent) :
    (m.sinceSetup samples).Traced samples ∧ (m.sinceSetup samples).FromLoop := by
  obtain ⟨sent, hsent⟩ := hpreamble
  have hscript := h.sent_left
  have hreceived := h.received
  rw [sinceSetup_of_inLoop hloop]
  refine ⟨⟨⟨?_, h.fits, h.rounds, fun hn => absurd hloop hn, fun _ => rfl, rfl⟩, ?_⟩,
    hloop, rfl, rfl⟩
  · show m.received.drop _ = [] ++ (m.rounds.flatMap Round.got ++ m.got)
    rw [hreceived, List.drop_left, List.nil_append]
  · -- the script of `loop` follows what was sent before it
    show m.sent.drop m.preamble.length ++ m.left = _
    rw [← hsent, List.drop_left]
    rw [← hsent, List.append_assoc] at hscript
    unfold InLoop at hloop
    unfold script at hscript ⊢
    cases hphase : m.phase with
    | writing w left =>
      rw [hphase] at hloop hscript
      cases w with
      | flush => exact hloop.elim
      | echo => exact hloop.elim
      | rcRx => exact List.append_cancel_left hscript
      | imu => exact List.append_cancel_left hscript
    | reading r got =>
      rw [hphase] at hloop hscript
      cases r with
      | handshake => exact hloop.elim
      | controlSurface => exact List.append_cancel_left hscript

end Mcu

namespace Link

variable {D : Type} [Double D] {samples : Samples} {c : SomConfig D} {s t : Link D}
  {acts : List Action}

/-! ## After the handshake -/

/-- Both programs with the bytes of the handshake taken out of their history. -/
def sinceHandshake (samples : Samples) (t : Link D) : Link D :=
  { t with mcu := t.mcu.sinceSetup samples, som := t.som.sinceHandshake }

/-- The read of `setup` got the handshake byte, and the SoM has `P` behind the bytes of the
handshake. -/
structure Begun (samples : Samples) (P : Som D → Prop) (t : Link D) : Prop where
  acknowledged : t.mcu.Acknowledged samples
  settled : ¬ t.mcu.Awaiting ∧
    t.mcu.handshakeGot = HandshakePacket.codec.encode kHandshakePacket
  som : ∃ u : Som D,
    t.som = u.behind handshakeBytes (HandshakePacket.codec.encode kHandshakePacket) ∧ P u
  conserved : t.Conserved

theorem begun_step {B : SomTimeout → Prop} {P : Som D → Prop} (hP : Som.Invariant c B P)
    {a : Action} (ha : Admits (fun r => r ≠ .handshake) B a) (hs : s.Begun samples P)
    (h : step samples c s a = some t) : t.Begun samples P where
  acknowledged := mcu_of_step (Mcu.acknowledged_invariant samples) ha hs.acknowledged h
  settled := by
    refine mcu_of_step (A := fun _ => True) (B := fun _ => True)
      (Mcu.settled_invariant samples _) ?_ hs.settled h
    cases a <;> trivial
  som := som_of_step (hP.behind _ _) ha hs.som h
  conserved := conserved_step hs.conserved h

omit [Double D] in
/-- What was sent before `loop`, or is being sent, is the line and the echo. -/
theorem Begun.preamble {P : Som D → Prop} (h : t.Begun samples P) :
    flushLine ++ HandshakePacket.codec.encode t.mcu.handshakePacket = handshakeBytes := by
  rw [h.acknowledged.handshakePacket, h.settled.2]
  rfl

omit [Double D] in
/-- The SoM has consumed the bytes of the handshake, and the rest of what was sent is for its main
loop. -/
theorem Begun.sent {P : Som D → Prop} (h : t.Begun samples P) :
    t.mcu.sent = handshakeBytes ++ (t.som.sinceHandshake.consumed ++
      (t.som.serial.streamBuffer ++ t.toSom.pending)) := by
  obtain ⟨u, hu, -⟩ := h.som
  rw [h.conserved.toSom, hu, Som.sinceHandshake_behind]
  simp only [Som.behind, List.append_assoc]

omit [Double D] in
/-- Before `loop`, the echo has been written as a whole, and nothing after it. -/
theorem Begun.echoed {P : Som D → Prop} (h : t.Begun samples P) (hout : ¬ t.mcu.InLoop) :
    t.mcu.received = t.mcu.handshakeGot ∧ t.som.sinceHandshake.consumed ++
      (t.som.serial.streamBuffer ++ t.toSom.pending) = [] := by
  have hsent := h.acknowledged.sent_left
  have hreceived := h.acknowledged.received
  have hrounds := h.acknowledged.setup hout
  have hawait := h.settled.1
  rw [Mcu.InLoop] at hout
  rw [Mcu.Awaiting] at hawait
  cases hphase : t.mcu.phase with
  | reading r got =>
    rw [hphase] at hout hawait
    cases r with
    | handshake => exact (hawait trivial).elim
    | controlSurface => exact (hout trivial).elim
  | writing w left =>
    rw [hphase] at hout hawait
    cases w with
    | flush => exact (hawait trivial).elim
    | rcRx => exact (hout trivial).elim
    | imu => exact (hout trivial).elim
    | echo =>
      rw [Mcu.script, hphase] at hsent
      rw [Mcu.got, hphase, hrounds] at hreceived
      refine ⟨hreceived.trans (List.append_nil _), ?_⟩
      -- the script ends with the echo
      have hscript : t.mcu.sent ++ t.mcu.left = handshakeBytes := hsent.trans h.preamble
      rw [h.sent, List.append_assoc] at hscript
      exact (List.append_eq_nil_iff.mp (List.append_right_eq_self.mp hscript)).1

omit [Double D] in
theorem Begun.traced {P : Som D → Prop} (h : t.Begun samples P) :
    (t.mcu.sinceSetup samples).Traced samples ∧ (t.mcu.sinceSetup samples).FromLoop := by
  by_cases hloop : t.mcu.InLoop
  · refine Mcu.traced_sinceSetup h.acknowledged.toTraced hloop ?_
    rw [h.acknowledged.preamble_eq hloop, h.preamble, h.sent]
    exact List.prefix_append _ _
  · rw [Mcu.sinceSetup_of_not_inLoop hloop]
    exact ⟨Mcu.traced_aligned samples, Mcu.fromLoop_aligned samples⟩

omit [Double D] in
/-- No byte of the loops is lost, duplicated or reordered. -/
theorem Begun.conserved_since {P : Som D → Prop} (h : t.Begun samples P) :
    (t.sinceHandshake samples).Conserved := by
  have hsent := h.sent
  have htoMcu := h.conserved.toMcu
  obtain ⟨u, hu, -⟩ := h.som
  have hsomSent : t.som.sent = t.mcu.handshakeGot ++ t.som.sinceHandshake.sent := by
    rw [hu, Som.sinceHandshake_behind, h.settled.2]
    rfl
  -- the microcontroller is in `loop`, or its echo is still being written
  by_cases hloop : t.mcu.InLoop
  · constructor
    · show (t.mcu.sinceSetup samples).sent = _
      rw [Mcu.sinceSetup_of_inLoop hloop]
      show t.mcu.sent.drop t.mcu.preamble.length = _
      rw [h.acknowledged.preamble_eq hloop, h.preamble, hsent, List.drop_left]
      rfl
    · show t.som.sinceHandshake.sent = (t.mcu.sinceSetup samples).received ++ t.toMcu.pending
      rw [Mcu.sinceSetup_of_inLoop hloop]
      rw [hsomSent, h.acknowledged.received, List.append_assoc] at htoMcu
      show _ = t.mcu.received.drop t.mcu.handshakeGot.length ++ _
      rw [h.acknowledged.received, List.drop_left]
      exact List.append_cancel_left htoMcu
  · obtain ⟨hreceived, hnothing⟩ := h.echoed hloop
    constructor
    · show (t.mcu.sinceSetup samples).sent = _
      rw [Mcu.sinceSetup_of_not_inLoop hloop]
      exact hnothing.symm
    · show t.som.sinceHandshake.sent = (t.mcu.sinceSetup samples).received ++ t.toMcu.pending
      rw [Mcu.sinceSetup_of_not_inLoop hloop]
      rw [hsomSent, hreceived] at htoMcu
      exact List.append_cancel_left htoMcu

/-- After the handshake both loops keep what they keep from an aligned start. -/
theorem Begun.looping (h : t.Begun samples fun u => u.Looping ∧ u.Triggered c) :
    (t.sinceHandshake samples).Looping samples c := by
  obtain ⟨u, hu, hlooping, htriggered⟩ := h.som
  have hsom : (t.sinceHandshake samples).som = u := by
    rw [← Som.sinceHandshake_behind u, ← hu]
    rfl
  exact ⟨h.traced.1, h.traced.2, hsom.symm ▸ hlooping, hsom.symm ▸ htriggered,
    h.conserved_since⟩

/-! ## Runs from power-on -/

/-- What is kept from power-on as long as the read of `setup` does not time out. -/
structure PoweredOn (samples : Samples) (P : Som D → Prop) (t : Link D) : Prop
    extends t.Handshaking samples where
  fresh : ¬ t.som.InMainLoop → t.som.Fresh
  begun : t.som.InMainLoop → t.Begun samples P

theorem poweredOn_boot (samples : Samples) (P : Som D → Prop) :
    (boot : Link D).PoweredOn samples P where
  toHandshaking := handshaking_boot samples
  fresh _ := ⟨rfl, rfl⟩
  begun hloop := hloop.elim

/-- The SoM stays outside its main loop, stays in it, or enters it from the end of the
handshake. -/
theorem stage_step {a : Action} (hfresh : ¬ s.som.InMainLoop → s.som.Fresh)
    (h : step samples c s a = some t) :
    (¬ s.som.InMainLoop ∧ ¬ t.som.InMainLoop ∧ t.som.Fresh) ∨
      (s.som.InMainLoop ∧ t.som.InMainLoop) ∨
      (s.som.phase = .connected ∧ t.som = { s.som with
        controller := s.som.controller.sendTelemetry, phase := .startRead .rcRx }) := by
  by_cases hloop : s.som.InMainLoop
  · refine Or.inr (Or.inl ⟨hloop, ?_⟩)
    rcases som_cases h with heq | ⟨b, hsend⟩ | ⟨piece, hreceive⟩ | hdone | ⟨o, -, htimeout⟩
    · exact heq ▸ hloop
    · exact (Som.send_of_inMainLoop hloop hsend).1
    · exact (Som.receive_of_inMainLoop hloop hreceive).1
    · exact (Som.done_of_inMainLoop hloop hdone).1
    · exact (Som.timeout_of_inMainLoop hloop htimeout).1
  · have hs := hfresh hloop
    rcases som_cases h with heq | ⟨b, hsend⟩ | ⟨piece, hreceive⟩ | hdone | ⟨o, -, htimeout⟩
    · exact Or.inl ⟨hloop, heq ▸ hloop, heq ▸ hs⟩
    · exact Or.inl ⟨hloop, Som.fresh_send hloop hs hsend⟩
    · exact Or.inl ⟨hloop, Som.fresh_receive hloop hs hreceive⟩
    · rcases Som.fresh_done hloop hs hdone with hout | hentry
      · exact Or.inl ⟨hloop, hout⟩
      · exact Or.inr (Or.inr hentry)
    · exact Or.inl ⟨hloop, Som.fresh_timeout hloop hs htimeout⟩

/-- Every step but the timeout of the read of `setup` keeps it, if `P` holds at the start of the
main loop. -/
theorem poweredOn_step {B : SomTimeout → Prop} {P : Som D → Prop} (hP : Som.Invariant c B P)
    {a : Action} (ha : Admits (fun r => r ≠ .handshake) B a)
    (hstart : s.som.phase = .connected → ∀ u : Som D, u.phase = .startRead .rcRx →
      u.serial = s.som.serial → u.consumed = [] → u.sent = [] → u.Fresh → P u)
    (hs : s.PoweredOn samples P) (h : step samples c s a = some t) :
    t.PoweredOn samples P := by
  have hne : a ≠ .mcuTimeout .handshake := by
    rintro rfl
    exact ha rfl
  have hkept : t.Handshaking samples := handshaking_step hne hs.toHandshaking h
  -- the SoM stays before the main loop, stays in it, or enters it
  rcases stage_step hs.fresh h with ⟨-, hout, hfresh⟩ | ⟨hin, hin'⟩ | ⟨hphase, hsom⟩
  · exact ⟨hkept, fun _ => hfresh, fun hin => absurd hin hout⟩
  · exact ⟨hkept, fun hout => absurd hin' hout, fun _ => begun_step hP ha (hs.begun hin) h⟩
  · have hagree := agreement_of_handshaking hs.toHandshaking hphase
    have hquiet := hs.quiet
    rw [Som.Quiet, hphase] at hquiet
    have hsettled : ¬ s.mcu.Awaiting ∧
        s.mcu.handshakeGot = HandshakePacket.codec.encode kHandshakePacket := by
      refine ⟨fun hawait => ?_, hagree.handshakeGot⟩
      have hgot := hs.acknowledged.handshakeGot hawait
      rw [hagree.handshakeGot] at hgot
      cases hgot
    have hout : ¬ s.som.InMainLoop := by
      rw [Som.InMainLoop, hphase]
      exact not_false
    refine ⟨hkept, fun hn => ?_, fun _ => ⟨hkept.acknowledged, ?_, ?_, hkept.conserved⟩⟩
    · rw [hsom] at hn
      exact absurd trivial hn
    · refine mcu_of_step (A := fun _ => True) (B := fun _ => True)
        (Mcu.settled_invariant samples _) ?_ hsettled h
      cases a <;> trivial
    · -- the main loop has consumed and sent nothing yet
      refine ⟨{ t.som with consumed := [], sent := [] }, ?_, hstart hphase _ ?_ ?_ rfl rfl ?_⟩
      · rw [hsom, Som.behind]
        simp only [hagree.consumed, hquiet.2, List.append_nil]
        rfl
      · rw [hsom]
      · rw [hsom]
      · rw [hsom]
        exact hs.fresh hout

theorem poweredOn_of_boot (h : run (step samples c) boot acts = some t)
    (hno : .mcuTimeout .handshake ∉ acts) :
    t.PoweredOn samples fun u => u.Looping ∧ u.Triggered c := by
  refine run_induction (A := Admits (fun r => r ≠ .handshake) fun _ => True)
    (poweredOn_boot samples _) (fun s a t ha hs hstep => ?_) (fun a hmem => ?_) h
  · refine poweredOn_step ((Som.looping_invariant c).and (Som.triggered_invariant c)) ha
      (fun _ u hphase _ hconsumed hsent hfresh => ?_) hs hstep
    exact ⟨(Som.replying_of_start hphase hfresh hconsumed hsent).toLooping,
      Som.triggered_of_fresh hfresh⟩
  · cases a with
    | mcuTimeout r =>
      rintro rfl
      exact hno hmem
    | _ => trivial

/-- **Power-on.** In every run from the start of both programs in which the read of `setup` does not
time out, the main loop of the SoM and `loop` keep what they keep from an aligned start. -/
theorem looping_of_boot (h : run (step samples c) boot acts = some t)
    (hno : .mcuTimeout .handshake ∉ acts) (hloop : t.som.InMainLoop) :
    (t.sinceHandshake samples).Looping samples c :=
  ((poweredOn_of_boot h hno).begun hloop).looping

/-- **Packet integrity from power-on.** In every run in which the read of `setup` does not time
out, the SoM's main loop begins right after the echo, and its completed reads return whole packets
exactly when the timeouts before each of them balance. -/
theorem integrity_of_boot (h : run (step samples c) boot acts = some t)
    (hno : .mcuTimeout .handshake ∉ acts) (hloop : t.som.InMainLoop) :
    t.som.consumed = handshakeBytes ++ returnedBytes t.som.reads ∧
      (Integrity samples t.mcu.rounds.length t.som.reads ↔ Balanced t.som.reads) := by
  have hbegun := (poweredOn_of_boot h hno).begun hloop
  have hlooping := hbegun.looping
  have hrounds := Mcu.rounds_sinceSetup samples hbegun.acknowledged.toLogged
  have hbytes := hlooping.consumed
  rw [show (t.sinceHandshake samples).som.reads = t.som.reads from rfl,
    show (t.sinceHandshake samples).mcu.rounds = t.mcu.rounds from hrounds] at hbytes
  constructor
  · obtain ⟨u, hu, hu', -⟩ := hbegun.som
    rw [hu]
    exact congrArg (handshakeBytes ++ ·) hu'.consumed
  · have halt := alternating_reads t.som
    constructor
    · intro hintegrity pre r post hreads
      exact (whole_iff halt hbytes hreads).mp (hintegrity pre r post hreads)
    · intro hbalanced pre r post hreads
      exact (whole_iff halt hbytes hreads).mpr (hbalanced pre r post hreads)

/-- The first read of the handshake times out, the second one returns the echo, and the first read
of the main loop returns the first packet of the loop. -/
theorem integrity_late_echo :
    ∃ t : Link ℚ, run (step (Samples.steady { timestamp := 7 } {}) .level) boot
        (bootLine ++ somGreets ++ [Action.somTimeout .read, .deliverToMcu, .mcuReceive, .mcuDone,
          .mcuSend, .mcuDone, .deliverToSom, .somReceive 1, .somDone, .somDone] ++ loopWrites ++
          List.replicate 9 Action.deliverToSom ++ [.somReceive 9, .somDone]) = some t ∧
      t.som.consumed = handshakeBytes ++ returnedBytes t.som.reads ∧
      (Integrity (Samples.steady { timestamp := 7 } {}) t.mcu.rounds.length t.som.reads ↔
        Balanced t.som.reads) := by
  have hany : (run (step (Samples.steady { timestamp := 7 } {}) SomConfig.level) boot
      (bootLine ++ somGreets ++ [Action.somTimeout .read, .deliverToMcu, .mcuReceive, .mcuDone,
        .mcuSend, .mcuDone, .deliverToSom, .somReceive 1, .somDone, .somDone] ++ loopWrites ++
        List.replicate 9 Action.deliverToSom ++ [.somReceive 9, .somDone])).any
        fun t => t.som.isInMainLoop := by
    decide +kernel
  obtain ⟨t, ht, hloop⟩ := (Option.any_eq_true _ _).mp hany
  exact ⟨t, ht, integrity_of_boot ht (by decide) (Som.isInMainLoop_iff.mp hloop)⟩

end Link

end RcPlane
