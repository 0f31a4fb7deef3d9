import RcPlane.Link.Lockstep
import RcPlane.Link.PowerOn

/-!
# Startup without timeouts

If nothing times out, the flush drops the line and nothing else, and the first byte that the SoM
reads behind it is the echo. The handshake therefore succeeds with nothing left in the buffer, and
the two loops proceed in lock step from power-on. Neither program ever waits for bytes that are not
on the way.

## Main definitions

* `Link.Fits`: the configuration fits the firmware
* `Link.Smooth`: what is kept from power-on as long as nothing times out

## Main results

* `Link.smooth_step`: every step but a timeout keeps it
* `Link.Smooth.canGoOn`: the two programs are never stuck
* `Link.lockstep_of_boot`: lock step from power-on
-/

namespace RcPlane

open Foundation SerialController

namespace Link

variable {D : Type} [Double D] {samples : Samples} {c : SomConfig D} {s t : Link D}
  {acts : List Action}

/-! ## Runs in which nothing times out -/

omit [Double D] in
/-- Until the read of `setup` is over, what is sent is the line or a part of it. -/
theorem sent_of_awaiting (h : t.Handshaking samples) (hawait : t.mcu.Awaiting) :
    t.mcu.sent <+: flushLine := by
  refine ⟨t.mcu.left, ?_⟩
  rw [h.acknowledged.sent_left, Mcu.script]
  rw [Mcu.Awaiting] at hawait
  split at hawait
  · next hphase => rw [hphase]
  · next hphase => rw [hphase]
  · exact hawait.elim

omit [Double D] in
/-- A flush has nothing but the line before it. -/
theorem line_of_flushing (h : t.Handshaking samples) (hphase : t.som.phase = .flushing) :
    t.mcu.Awaiting ∧ t.som.consumed = [] ∧
      t.som.serial.streamBuffer ++ t.toSom.pending = t.mcu.sent := by
  have hquiet := h.quiet
  rw [Som.Quiet, hphase] at hquiet
  have htoSom := h.conserved.toSom
  rw [hquiet.1, List.nil_append] at htoSom
  exact ⟨awaiting_of_silent h hquiet.2, hquiet.1, htoSom.symm⟩

omit [Double D] in
/-- Once the handshake byte is sent, the first byte behind the line is the echo of it. -/
theorem echo_of_greeted (h : t.Handshaking samples) (hsent : t.som.sent = [1])
    (hconsumed : t.som.consumed = flushLine) {b : UInt8} {rest : List UInt8}
    (hbuffer : t.som.serial.streamBuffer ++ t.toSom.pending = b :: rest) : b = 1 := by
  have htoSom := h.conserved.toSom
  rw [hconsumed, hbuffer] at htoSom
  have hover : ¬ t.mcu.Awaiting := by
    intro hawait
    have hlen := (sent_of_awaiting h hawait).length_le
    rw [htoSom, List.length_append, List.length_cons] at hlen
    omega
  have hgot : t.mcu.handshakeGot = [1] := by
    have htoMcu := h.conserved.toMcu
    obtain ⟨b', hb'⟩ := List.length_eq_one_iff.mp (h.acknowledged.length_handshakeGot hover)
    rw [hsent, h.acknowledged.received, hb', List.append_assoc, List.singleton_append] at htoMcu
    rw [hb', (List.cons.inj htoMcu).1]
  obtain ⟨later, n, hscript, -⟩ := sent_of_acknowledged h.acknowledged hgot
  rw [htoSom, List.append_assoc] at hscript
  exact (List.cons.inj (List.append_cancel_left hscript)).1

/-- What is kept from power-on as long as nothing times out. -/
structure Smooth (samples : Samples) (c : SomConfig D) (t : Link D) : Prop where
  poweredOn : t.PoweredOn samples fun u => u.Replying ∧ u.Triggered c ∧ u.Prompt
  greeting : t.som.Greeting
  full : t.mcu.Full

theorem smooth_boot (samples : Samples) (c : SomConfig D) : (boot : Link D).Smooth samples c where
  poweredOn := poweredOn_boot samples _
  greeting := trivial
  full := by
    intro r h
    cases h

/-- The configuration fits the firmware: there is an attempt at the handshake, and the flush waits
for the line that `setup` writes. -/
structure Fits (c : SomConfig D) : Prop where
  attempts : 0 < c.handshakeAttempts
  terminator : c.handshakeTerminationStr = flushLine

theorem greeting_step (hc : Fits c) {a : Action} (hno : ¬ a.isTimeout) (hs : s.Smooth samples c)
    (h : step samples c s a = some t) : t.som.Greeting := by
  have hhandshaking := hs.poweredOn.toHandshaking
  rcases som_cases h with heq | ⟨b, hsend⟩ | ⟨piece, hreceive⟩ | hdone | ⟨o, rfl, -⟩
  · exact heq ▸ hs.greeting
  · exact Som.greeting_send hs.greeting hsend
  · exact Som.greeting_receive hs.greeting hreceive
  · refine Som.greeting_done hc.attempts hc.terminator hs.greeting (fun hphase => ?_)
      (fun attempt hphase => ?_) hdone
    · obtain ⟨hawait, hconsumed, hline⟩ := line_of_flushing hhandshaking hphase
      refine ⟨hconsumed, List.IsPrefix.trans ?_ (sent_of_awaiting hhandshaking hawait)⟩
      exact ⟨_, hline⟩
    · have hgreeting := hs.greeting
      have hquiet := hhandshaking.quiet
      rw [Som.Greeting, hphase] at hgreeting
      rw [Som.Quiet, hphase] at hquiet
      obtain ⟨hconsumed, hlen⟩ := hgreeting
      rw [Nat.zero_add] at hlen
      obtain ⟨b, hb⟩ := List.length_eq_one_iff.mp hlen
      have hecho := echo_of_greeted hhandshaking hquiet.2 hconsumed
        (congrArg (· ++ s.toSom.pending) hb)
      rw [hb, hecho]
  · exact absurd rfl hno

theorem smooth_step (hc : Fits c) {a : Action} (hno : ¬ a.isTimeout) (hs : s.Smooth samples c)
    (h : step samples c s a = some t) : t.Smooth samples c where
  poweredOn := by
    have hP : Som.Invariant c (fun _ => False) fun u => u.Replying ∧ u.Triggered c ∧ u.Prompt :=
      ((Som.replying_invariant c).mono fun _ => False.elim).and
        (((Som.triggered_invariant c).mono fun _ => False.elim).and (Som.prompt_invariant c))
    refine poweredOn_step hP ?_ (fun hphase u hphase' hserial hconsumed hsent hfresh => ?_)
      hs.poweredOn h
    · cases a with
      | mcuTimeout r => exact (hno rfl).elim
      | somTimeout o => exact hno rfl
      | _ => trivial
    · have hgreeting := hs.greeting
      rw [Som.Greeting, hphase] at hgreeting
      exact ⟨Som.replying_of_start hphase' hfresh hconsumed hsent, Som.triggered_of_fresh hfresh,
        Som.prompt_of_start hphase' hfresh (hserial ▸ hgreeting)⟩
  greeting := greeting_step hc hno hs h
  full := by
    refine mcu_of_step (B := fun _ => True) (Mcu.full_invariant samples) ?_ hs.full h
    cases a with
    | mcuTimeout r => exact hno rfl
    | _ => trivial

theorem smooth_of_boot (hc : Fits c) (h : run (step samples c) boot acts = some t)
    (hno : ∀ a ∈ acts, ¬ a.isTimeout) : t.Smooth samples c :=
  run_induction (A := fun a => ¬ a.isTimeout) (smooth_boot samples c)
    (fun _ _ _ ha hs hstep => smooth_step hc ha hs hstep) hno h

/-- The SoM's iterations use the samples of the loop's iterations. -/
theorem samples_of_prompt (h : t.Prompt samples c) :
    (t.som.iterations.map fun i => (i.rcRx.packet, i.imu.packet)) =
      (List.range t.som.iterations.length).map samples := by
  apply List.ext_getElem
  · simp
  · intro k hk _
    rw [List.length_map] at hk
    simp only [List.getElem_map, List.getElem_range]
    exact (sample_of_iteration h.toLooping hk fun i hi =>
      iteration_of_prompt h (List.mem_of_mem_take hi)).2

/-- After the handshake, the invariant of the loops without timeouts. -/
theorem Smooth.prompt (h : t.Smooth samples c) (hloop : t.som.InMainLoop) :
    (t.sinceHandshake samples).Prompt samples c := by
  have hbegun := h.poweredOn.begun hloop
  obtain ⟨u, hu, hreplying, htriggered, hprompt⟩ := hbegun.som
  have hsom : (t.sinceHandshake samples).som = u := by
    rw [← Som.sinceHandshake_behind u, ← hu]
    rfl
  refine ⟨⟨hbegun.traced.1, hbegun.traced.2, ?_, ?_, hbegun.conserved_since⟩, ?_, ?_, ?_⟩
  · exact hsom.symm ▸ hreplying.toLooping
  · exact hsom.symm ▸ htriggered
  · exact hsom.symm ▸ hreplying
  · exact hsom.symm ▸ hprompt
  · intro r hr
    apply h.full
    rw [← Mcu.rounds_sinceSetup samples hbegun.acknowledged.toLogged]
    exact hr

/-! ### Before the main loop -/

/-- Before the main loop the SoM has sent the handshake byte at most, so no iteration of `loop` is
over. -/
theorem Smooth.rounds (h : t.Smooth samples c) (hout : ¬ t.som.InMainLoop) :
    t.mcu.rounds = [] := by
  have hquiet := h.poweredOn.quiet
  have hgreeting := h.greeting
  have hsent : t.som.sent.length ≤ 1 := by
    rw [Som.InMainLoop] at hout
    rw [Som.Quiet] at hquiet
    rw [Som.Greeting] at hgreeting
    cases hphase : t.som.phase with
    | flushing =>
      rw [hphase] at hquiet
      rw [hquiet.2]
      exact Nat.zero_le 1
    | writing w left =>
      rw [hphase] at hout hquiet
      cases w with
      | handshake =>
        have hlen := congrArg List.length hquiet.2
        rw [List.length_append, List.length_singleton] at hlen
        omega
      | controlSurface imuPacket => exact (hout trivial).elim
    | reading r need =>
      rw [hphase] at hout hquiet
      cases r with
      | handshake attempt => rw [hquiet.2, List.length_singleton]
      | rcRx => exact (hout trivial).elim
      | imu rcRx => exact (hout trivial).elim
    | connected =>
      rw [hphase] at hquiet
      rw [hquiet.2, List.length_singleton]
    | halted =>
      rw [hphase] at hgreeting
      exact hgreeting.elim
  -- a round got four bytes, and all of them were sent
  have hlen := congrArg List.length h.poweredOn.conserved.toMcu
  rw [h.poweredOn.acknowledged.received] at hlen
  simp only [List.length_append, Mcu.length_flatMap_got h.full] at hlen
  apply List.eq_nil_of_length_eq_zero
  omega

omit [Double D] in
/-- In an iteration, `loop` has sent no more than the bytes of the handshake, and of the iterations
so far. -/
theorem length_sent_le (h : t.mcu.Acknowledged samples) :
    t.mcu.sent.length ≤ 8 + 37 * (t.mcu.rounds.length + 1) := by
  have hsent := congrArg List.length h.sent_left
  have hpreamble := h.preamble_eq
  have hloop : ∀ n, (loopBytes samples n).length = 37 * n := by
    intro n
    rw [loopBytes, Codec.length_encodeAll, List.length_map, List.length_range, size_loopCodec]
  rw [List.length_append] at hsent
  have hline : flushLine.length = 7 := rfl
  have hhandshake : (HandshakePacket.codec.encode t.mcu.handshakePacket).length = 1 := rfl
  have hrcRx : (RcRxPacket.codec.encode (samples t.mcu.rounds.length).1).length = 9 :=
    RcRxPacket.codec.length_encode _
  -- what is sent so far is the part of the script that has been written
  cases hphase : t.mcu.phase with
  | writing w left =>
    rw [Mcu.InLoop, hphase] at hpreamble
    rw [Mcu.script, hphase] at hsent
    cases w with
    | flush =>
      simp only at hsent
      omega
    | echo =>
      simp only [List.length_append] at hsent
      omega
    | rcRx =>
      simp only [List.length_append, hpreamble trivial, hloop] at hsent
      omega
    | imu =>
      simp only [List.length_append, hpreamble trivial, hloop] at hsent
      omega
  | reading r got =>
    rw [Mcu.InLoop, hphase] at hpreamble
    rw [Mcu.script, hphase] at hsent
    cases r with
    | handshake =>
      simp only at hsent
      omega
    | controlSurface =>
      simp only [List.length_append, hpreamble trivial, hloop] at hsent
      omega

/-- At most 38 bytes are on the way to the SoM or in its buffer: the echo, and an iteration. -/
theorem Smooth.length_pending_le (h : t.Smooth samples c) :
    (t.som.serial.streamBuffer ++ t.toSom.pending).length ≤ 38 := by
  by_cases hloop : t.som.InMainLoop
  · exact (counts_of_prompt (h.prompt hloop)).2.1.trans (by norm_num)
  have hrounds := h.rounds hloop
  have hquiet := h.poweredOn.quiet
  have hgreeting := h.greeting
  have hsent := length_sent_le h.poweredOn.acknowledged
  have hline : flushLine.length = 7 := rfl
  rw [hrounds, h.poweredOn.conserved.toSom, List.length_append] at hsent
  -- either the line is all that was sent, or it is consumed
  have hconsumed : t.som.phase = .flushing ∨ 7 ≤ t.som.consumed.length := by
    rw [Som.InMainLoop] at hloop
    rw [Som.Quiet] at hquiet
    rw [Som.Greeting] at hgreeting
    cases hphase : t.som.phase with
    | flushing => exact Or.inl rfl
    | writing w left =>
      rw [hphase] at hloop hgreeting
      cases w with
      | handshake => exact Or.inr (by rw [hgreeting.1, hline])
      | controlSurface imuPacket => exact (hloop trivial).elim
    | reading r need =>
      rw [hphase] at hloop hgreeting
      cases r with
      | handshake attempt => exact Or.inr (by rw [hgreeting.1, hline])
      | rcRx => exact (hloop trivial).elim
      | imu rcRx => exact (hloop trivial).elim
    | connected =>
      have hagree := agreement_of_handshaking h.poweredOn.toHandshaking hphase
      exact Or.inr (by rw [hagree.consumed, List.length_append]; omega)
    | halted =>
      rw [hphase] at hgreeting
      exact hgreeting.elim
  rcases hconsumed with hphase | hconsumed
  · obtain ⟨hawait, -, hpending⟩ := line_of_flushing h.poweredOn.toHandshaking hphase
    have hlen := (sent_of_awaiting h.poweredOn.toHandshaking hawait).length_le
    rw [hpending]
    omega
  · simp only [List.length_nil] at hsent
    omega

/-! ### Progress -/

/-- The SoM's flush goes on: it has the line, or the line is on its way. -/
theorem canGoOn_of_flushing (hc : Fits c) (h : t.Smooth samples c)
    (hphase : t.som.phase = .flushing) (hline : t.mcu.sent = flushLine) :
    CanGoOn samples c t := by
  obtain ⟨-, -, hpending⟩ := line_of_flushing h.poweredOn.toHandshaking hphase
  cases hfound : untilSize c.handshakeTerminationStr t.som.serial.streamBuffer with
  | some size => exact ⟨.somDone, Bool.false_ne_true, by simp [step, Som.done, hphase, hfound]⟩
  | none =>
    have hne : t.toSom.pending ≠ [] := by
      intro hnil
      rw [hnil, List.append_nil, hline] at hpending
      rw [hpending, hc.terminator] at hfound
      cases hfound
    rcases Line.deliver_or_receive_of_pending hne with ⟨l, hl⟩ | ⟨b, l, hl⟩
    · exact ⟨.deliverToSom, Bool.false_ne_true, by simp [step, hl]⟩
    · exact ⟨.somReceive 1, Bool.false_ne_true, by simp [step, hl, Som.receive, hphase, hfound]⟩

/-- Where both wait for bytes during the handshake, some are on the way. -/
theorem not_both_waiting_handshake (h : t.Smooth samples c) {r : McuRead} {got : List UInt8}
    (hmcu : t.mcu.phase = .reading r got) (hgot : got.length < r.size) {attempt need : ℕ}
    (hsom : t.som.phase = .reading (.handshake attempt) (need + 1)) (htoSom : t.toSom.pending = [])
    (htoMcu : t.toMcu.pending = []) : False := by
  have hquiet := h.poweredOn.quiet
  have hgreeting := h.greeting
  rw [Som.Quiet, hsom] at hquiet
  rw [Som.Greeting, hsom] at hgreeting
  obtain ⟨hconsumed, hlen⟩ := hgreeting
  have hbuffer : t.som.serial.streamBuffer = [] := List.eq_nil_of_length_eq_zero (by omega)
  -- the line is all that was sent, and the handshake byte has been received
  have hline := h.poweredOn.conserved.toSom
  have hbyte := h.poweredOn.conserved.toMcu
  have hreceived := h.poweredOn.acknowledged.received
  rw [hconsumed, hbuffer, htoSom] at hline
  rw [hquiet.2, htoMcu, List.append_nil, hreceived] at hbyte
  have hscript := h.poweredOn.acknowledged.sent_of_reading hmcu
  rw [hline, Mcu.script, hmcu] at hscript
  cases r with
  | handshake =>
    have hawait : t.mcu.Awaiting := by
      rw [Mcu.Awaiting, hmcu]
      trivial
    have hrounds : t.mcu.rounds = [] := by
      apply h.poweredOn.acknowledged.setup
      rw [Mcu.InLoop, hmcu]
      exact not_false
    rw [h.poweredOn.acknowledged.handshakeGot hawait, hrounds, Mcu.got, hmcu] at hbyte
    have hone : got = [1] := hbyte.symm
    rw [hone] at hgot
    exact absurd hgot (by decide)
  | controlSurface =>
    have hpreamble := h.poweredOn.acknowledged.preamble_eq
    rw [Mcu.InLoop, hmcu] at hpreamble
    have hlength := congrArg List.length hscript
    simp only [hpreamble trivial, List.length_append] at hlength
    have hecho : (HandshakePacket.codec.encode t.mcu.handshakePacket).length = 1 := rfl
    simp only [List.length_nil] at hlength
    omega

/-- **Progress.** Without timeouts the two programs are never stuck, from power-on. -/
theorem Smooth.canGoOn (hc : Fits c) (h : t.Smooth samples c) : CanGoOn samples c t := by
  cases hmcu : t.mcu.phase with
  | writing w left => exact canGoOn_of_mcu_writing hmcu
  | reading r got =>
    have hfits := h.poweredOn.acknowledged.fits _ _ hmcu
    rcases hfits.eq_or_lt with hall | hlt
    · exact canGoOn_of_mcu_reading hmcu (Or.inl hall)
    by_cases htoMcu : t.toMcu.pending = []
    · -- nothing is on the way to the microcontroller, so the SoM has to move
      cases hsom : t.som.phase with
      | flushing =>
        have hawait := (line_of_flushing h.poweredOn.toHandshaking hsom).1
        rw [Mcu.Awaiting, hmcu] at hawait
        cases r with
        | handshake =>
          refine canGoOn_of_flushing hc h hsom ?_
          rw [h.poweredOn.acknowledged.sent_of_reading hmcu, Mcu.script, hmcu]
        | controlSurface => exact hawait.elim
      | writing w left => exact canGoOn_of_som_writing hsom
      | connected =>
        exact ⟨.somDone, Bool.false_ne_true, by simp [step, Som.done, hsom]⟩
      | halted =>
        have hgreeting := h.greeting
        rw [Som.Greeting, hsom] at hgreeting
        exact hgreeting.elim
      | reading r' need =>
        cases need with
        | zero => exact canGoOn_of_som_reading hsom (Or.inl rfl)
        | succ need =>
          by_cases htoSom : t.toSom.pending = []
          · exfalso
            -- both would wait, in the main loop or for the echo
            by_cases hloop : t.som.InMainLoop
            · have hsettled := (h.poweredOn.begun hloop).settled.1
              rw [Mcu.Awaiting, hmcu] at hsettled
              cases r with
              | handshake => exact hsettled trivial
              | controlSurface =>
                have hin : t.mcu.InLoop := by
                  rw [Mcu.InLoop, hmcu]
                  trivial
                refine not_both_waiting (h.prompt hloop) ?_ hlt hsom htoSom htoMcu
                show (t.mcu.sinceSetup samples).phase = _
                rw [Mcu.sinceSetup_of_inLoop hin]
                exact hmcu
            · rw [Som.InMainLoop, hsom] at hloop
              cases r' with
              | handshake attempt =>
                exact not_both_waiting_handshake h hmcu hlt hsom htoSom htoMcu
              | rcRx => exact hloop trivial
              | imu rcRx => exact hloop trivial
          · exact canGoOn_of_som_reading hsom (Or.inr htoSom)
    · exact canGoOn_of_mcu_reading hmcu (Or.inr ⟨hlt, htoMcu⟩)

/-! ## Lock step from power-on -/

/-- **Lock step from power-on.** In every run from the start of both programs in which nothing times
out, the handshake does not fail, the SoM's iterations use the samples of the loop's iterations,
the loop applies the autopilot's answers to them, at most 38 bytes are on the way to the SoM or in
its buffer, and the system is not stuck. -/
theorem lockstep_of_boot (hc : Fits c) (h : run (step samples c) boot acts = some t)
    (hno : ∀ a ∈ acts, ¬ a.isTimeout) :
    t.som.phase ≠ .halted ∧
      (t.som.iterations.map fun i => (i.rcRx.packet, i.imu.packet)) =
        (List.range t.som.iterations.length).map samples ∧
      t.mcu.rounds.map Round.after =
        (AutopilotManager.automaton c.promote c.autopilot).outputs
          ((List.range t.mcu.rounds.length).map fun k =>
            ⟨c.outOfRange k, (samples k).1, (samples k).2⟩) ∧
      (t.som.serial.streamBuffer ++ t.toSom.pending).length ≤ 38 ∧
      ∃ a : Action, ¬ a.isTimeout ∧ (step samples c t a).isSome := by
  have hsmooth := smooth_of_boot hc h hno
  refine ⟨fun hhalted => ?_, ?_, ?_, hsmooth.length_pending_le, hsmooth.canGoOn hc⟩
  · -- a handshake in which nothing times out succeeds
    have hgreeting := hsmooth.greeting
    rw [Som.Greeting, hhalted] at hgreeting
    exact hgreeting
  · by_cases hloop : t.som.InMainLoop
    · have hsamples := samples_of_prompt (hsmooth.prompt hloop)
      exact hsamples
    · rw [(hsmooth.poweredOn.fresh hloop).1]
      rfl
  · by_cases hloop : t.som.InMainLoop
    · have hrounds : (t.sinceHandshake samples).mcu.rounds = t.mcu.rounds :=
        Mcu.rounds_sinceSetup samples (hsmooth.poweredOn.begun hloop).acknowledged.toLogged
      have happlied := applied_of_prompt (hsmooth.prompt hloop)
      rw [hrounds] at happlied
      exact happlied
    · rw [hsmooth.rounds hloop]
      rfl

/-- A clean handshake, and one whole iteration of both loops. -/
theorem lockstep_first_iteration :
    ∃ t : Link ℚ, run (step (Samples.steady { aileronStickPosition := 50 } {}) .level) boot
        (bootLine ++ somGreets ++ [Action.deliverToMcu, .mcuReceive, .mcuDone, .mcuSend, .mcuDone,
          .deliverToSom, .somReceive 1, .somDone, .somDone] ++ loopWrites ++ somAnswers ++
          loopReads) = some t ∧
      t.mcu.rounds.length = 1 ∧
      t.mcu.rounds.map Round.after =
        (AutopilotManager.automaton SomConfig.level.promote SomConfig.level.autopilot).outputs
          ((List.range t.mcu.rounds.length).map fun k => ⟨SomConfig.level.outOfRange k,
            (Samples.steady { aileronStickPosition := 50 } {} k).1,
            (Samples.steady { aileronStickPosition := 50 } {} k).2⟩) := by
  have hany : (run (step (Samples.steady { aileronStickPosition := 50 } {}) SomConfig.level) boot
      (bootLine ++ somGreets ++ [Action.deliverToMcu, .mcuReceive, .mcuDone, .mcuSend, .mcuDone,
        .deliverToSom, .somReceive 1, .somDone, .somDone] ++ loopWrites ++ somAnswers ++
        loopReads)).any fun t => decide (t.mcu.rounds.length = 1) := by
    decide +kernel
  obtain ⟨t, ht, hone⟩ := (Option.any_eq_true _ _).mp hany
  have hfits : Fits SomConfig.level := ⟨by decide, rfl⟩
  exact ⟨t, ht, of_decide_eq_true hone, (lockstep_of_boot hfits ht (by decide)).2.2.1⟩

end Link

end RcPlane
