import RcPlane.Link.Servo

/-!
# When the SoM falls silent

The process on the SoM may end or hang while the microcontroller is in `loop`. Nothing tells the
microcontroller: its reads time out one after the other, `csPacket` stays as it is, and `loop`
applies it over and over, whatever the receiver says.

## Main definitions

* `Action.isMcu`: the actions that need nobody but the microcontroller
* `Mcu.Successive`: each round begins with the packet that the round before has left
* `Mcu.Continues`: rounds are added, and `setup` is over

## Main results

* `Link.commands_of_silence`: what is left of the commands
* `Link.servo_of_silence`: the servo, after a run in which nothing has timed out
* `Link.rounds_of_mcu`: the microcontroller alone never stops
-/

namespace RcPlane

open Foundation

/-- The action needs nobody but the microcontroller. -/
def Action.isMcu : Action → Bool
  | .mcuSend => true
  | .mcuDone => true
  | .mcuTimeout _ => true
  | _ => false

/-! ## Rounds -/

namespace Mcu

variable {samples : Samples} {m m' : Mcu}

/-- Each round begins with the packet that the round before has left. -/
def Successive (m : Mcu) : Prop :=
  m.rounds.map Round.before ++ [m.csPacket] = {} :: m.rounds.map Round.after

theorem successive_boot : boot.Successive := rfl

theorem Successive.finishRead (h : m.Successive) (r : McuRead) (got : List UInt8) :
    (finishRead samples m r got).Successive := by
  cases r with
  | handshake => exact h
  | controlSurface =>
    show List.map Round.before (m.rounds ++ [_]) ++ [_] =
      _ :: List.map Round.after (m.rounds ++ [_])
    simp only [List.map_append, List.map_singleton]
    rw [← List.cons_append, ← show _ = _ from h]
    rfl

theorem successive_invariant (samples : Samples) :
    Invariant samples (fun _ => True) Successive where
  send {m m' b} h hstep := by
    obtain ⟨w, left, -, rfl⟩ := send_eq_some.mp hstep
    exact h
  receive {m m' bytes} h hstep := by
    obtain ⟨r, got, -, -, rfl⟩ := receive_eq_some.mp hstep
    exact h
  done {m m'} h hstep := by
    rcases done_eq_some hstep with ⟨-, rfl⟩ | ⟨-, rfl⟩ | ⟨-, rfl⟩ | ⟨-, rfl⟩ | ⟨r, got, -, -, rfl⟩
    · exact h
    · exact h
    · exact h
    · exact h
    · exact h.finishRead r got
  timeout {m m' r} _ h hstep := by
    obtain ⟨got, -, -, rfl⟩ := timeout_eq_some.mp hstep
    exact h.finishRead r got

/-- A microcontroller in `loop` that has gone on from `m`. -/
structure Continues (m m' : Mcu) : Prop where
  inLoop : m'.InLoop
  handshakeGot : m'.handshakeGot = m.handshakeGot
  preamble : m'.preamble = m.preamble
  rounds : m.rounds <+: m'.rounds

theorem Continues.finishRead (h : m.Continues m') {r : McuRead} {got : List UInt8}
    (hphase : m'.phase = .reading r got) : m.Continues (finishRead samples m' r got) := by
  cases r with
  | handshake =>
    have hloop := h.inLoop
    rw [InLoop, hphase] at hloop
    exact hloop.elim
  | controlSurface =>
    exact ⟨trivial, h.handshakeGot, h.preamble, h.rounds.trans (List.prefix_append _ _)⟩

theorem continues_invariant (samples : Samples) (m : Mcu) :
    Invariant samples (fun _ => True) m.Continues where
  send {m₁ m' b} h hstep := by
    have hloop := (stage_send hstep).1.mpr h.inLoop
    obtain ⟨w, left, -, rfl⟩ := send_eq_some.mp hstep
    exact ⟨hloop, h.handshakeGot, h.preamble, h.rounds⟩
  receive {m₁ m' bytes} h hstep := by
    have hloop := (stage_receive hstep).1.mpr h.inLoop
    obtain ⟨r, got, -, -, rfl⟩ := receive_eq_some.mp hstep
    exact ⟨hloop, h.handshakeGot, h.preamble, h.rounds⟩
  done {m₁ m'} h hstep := by
    have hloop := h.inLoop
    rcases done_eq_some hstep with ⟨hphase, rfl⟩ | ⟨hphase, rfl⟩ | ⟨-, rfl⟩ | ⟨-, rfl⟩ |
      ⟨r, got, hphase, -, rfl⟩
    · rw [InLoop, hphase] at hloop
      -- `setup` is over
      exact hloop.elim
    · rw [InLoop, hphase] at hloop
      exact hloop.elim
    · exact ⟨trivial, h.handshakeGot, h.preamble, h.rounds⟩
    · exact ⟨trivial, h.handshakeGot, h.preamble, h.rounds⟩
    · exact h.finishRead hphase
  timeout {m₁ m' r} _ h hstep := by
    obtain ⟨got, hphase, -, rfl⟩ := timeout_eq_some.mp hstep
    exact h.finishRead hphase

/-- A round that changes the packet has got a byte at least. -/
theorem countP_changes_le {rounds : List Round}
    (h : ∀ r ∈ rounds, r.after = readInto ControlSurfacePacket.codec r.before r.got) :
    rounds.countP (fun r => r.after ≠ r.before) ≤ (rounds.flatMap Round.got).length := by
  induction rounds with
  | nil => exact Nat.zero_le _
  | cons r rounds ih =>
    have hrest := ih fun r' hr' => h r' (List.mem_cons_of_mem r hr')
    rw [List.flatMap_cons, List.length_append]
    by_cases hchange : r.after = r.before
    · rw [List.countP_cons_of_neg (by simp [hchange])]
      omega
    · have hgot : r.got ≠ [] := by
        intro hgot
        apply hchange
        rw [h r List.mem_cons_self, hgot, readInto_nil]
      have hpos := List.length_pos_of_ne_nil hgot
      rw [List.countP_cons_of_pos (by simp [hchange])]
      omega

/-- Rounds that change nothing leave the packet that they began with. -/
theorem map_after_of_unchanged {rounds : List Round} {first last : ControlSurfacePacket}
    (h : rounds.map Round.before ++ [last] = first :: rounds.map Round.after)
    (hunchanged : ∀ r ∈ rounds, r.after = r.before) :
    rounds.map Round.after = List.replicate rounds.length first := by
  induction rounds generalizing first with
  | nil => rfl
  | cons r rounds ih =>
    obtain ⟨rfl, hrest⟩ := List.cons.inj h
    have hr := hunchanged r List.mem_cons_self
    rw [List.map_cons, List.length_cons, List.replicate_succ, ← hr]
    rw [ih hrest fun r' hr' => hunchanged r' (List.mem_cons_of_mem r hr')]

end Mcu

namespace Link

variable {D : Type} [Double D] {samples : Samples} {c : SomConfig D} {acts acts' : List Action}
  {s t : Link D}

/-! ## What is left of the commands -/

/-- The SoM sends nothing but by an action of its own. -/
theorem sent_of_silence (h : run (step samples c) s acts = some t) (hsilent : .somSend ∉ acts) :
    t.som.sent = s.som.sent := by
  refine run_induction (P := fun u : Link D => u.som.sent = s.som.sent) (A := fun a => a ≠ .somSend)
    rfl (fun u a v ha hu hstep => ?_) (fun a ha heq => hsilent (by rwa [heq] at ha)) h
  -- the SoM sends in one way only
  cases a with
  | somSend => exact absurd rfl ha
  | somReceive n =>
    obtain ⟨⟨piece, l⟩, -, hstep⟩ := Option.bind_eq_some_iff.mp hstep
    obtain ⟨m, hm, rfl⟩ := Option.map_eq_some_iff.mp hstep
    rcases Som.receive_eq_some hm with ⟨-, -, rfl⟩ | ⟨r, need, -, -, rfl⟩
    · exact hu
    · exact hu
  | somDone =>
    obtain ⟨m, hm, rfl⟩ := Option.map_eq_some_iff.mp hstep
    exact (Som.traffic_done hm).2.trans hu
  | somTimeout o =>
    obtain ⟨m, hm, rfl⟩ := Option.map_eq_some_iff.mp hstep
    exact (Som.traffic_timeout hm).2.trans hu
  | mcuReceive =>
    obtain ⟨r, -, hstep⟩ := Option.bind_eq_some_iff.mp hstep
    obtain ⟨m, -, rfl⟩ := Option.map_eq_some_iff.mp hstep
    exact hu
  | _ =>
    obtain ⟨r, -, rfl⟩ := Option.map_eq_some_iff.mp hstep
    exact hu

/-- **What is left of the commands.** From every state that a run from power-on reaches with the
microcontroller in `loop`, as long as the SoM sends nothing: the rounds get the bytes that were on
the way, and no others; the packet goes from one round to the next; and no more rounds change it
than bytes were on the way. -/
theorem commands_of_silence (h : run (step samples c) boot acts = some s) (hloop : s.mcu.InLoop)
    (h' : run (step samples c) s acts' = some t) (hsilent : .somSend ∉ acts') :
    ∃ rest, t.mcu.rounds = s.mcu.rounds ++ rest ∧
      rest.flatMap Round.got ++ (t.mcu.got ++ t.toMcu.pending) = s.mcu.got ++ s.toMcu.pending ∧
      rest.map Round.before ++ [t.mcu.csPacket] = s.mcu.csPacket :: rest.map Round.after ∧
      rest.countP (fun r => r.after ≠ r.before) ≤ (s.mcu.got ++ s.toMcu.pending).length := by
  have hlogged : s.mcu.Logged :=
    mcu_of_run (Mcu.logged_invariant samples) (fun _ _ => trivial) Mcu.logged_boot h
  have hlogged' : t.mcu.Logged :=
    mcu_of_run (Mcu.logged_invariant samples) (fun _ _ => trivial) hlogged h'
  have hsuccessive : s.mcu.Successive :=
    mcu_of_run (Mcu.successive_invariant samples) (fun _ _ => trivial) Mcu.successive_boot h
  have hsuccessive' : t.mcu.Successive :=
    mcu_of_run (Mcu.successive_invariant samples) (fun _ _ => trivial) hsuccessive h'
  have hcontinues : s.mcu.Continues t.mcu :=
    mcu_of_run (Mcu.continues_invariant samples s.mcu) (fun _ _ => trivial)
      ⟨hloop, rfl, rfl, List.prefix_rfl⟩ h'
  obtain ⟨rest, hrounds⟩ := hcontinues.rounds
  -- no byte is added, so what the new rounds got was buffered or on its way
  have hbytes : rest.flatMap Round.got ++ (t.mcu.got ++ t.toMcu.pending) =
      s.mcu.got ++ s.toMcu.pending := by
    have hconserved := conserved_of_run conserved_boot h
    have hconserved' := conserved_of_run hconserved h'
    have hsent := sent_of_silence h' hsilent
    rw [hconserved.toMcu, hconserved'.toMcu, hlogged.received, hlogged'.received,
      hcontinues.handshakeGot, ← hrounds, List.flatMap_append] at hsent
    simpa only [List.append_assoc, List.append_cancel_left_eq] using hsent
  -- each new round begins with the packet that the round before it has left
  have hpackets : rest.map Round.before ++ [t.mcu.csPacket] =
      s.mcu.csPacket :: rest.map Round.after := by
    have hall : t.mcu.rounds.map Round.before ++ [t.mcu.csPacket] = _ := hsuccessive'
    rw [← hrounds, List.map_append, List.map_append, ← List.cons_append,
      ← show s.mcu.rounds.map Round.before ++ [s.mcu.csPacket] = _ from hsuccessive] at hall
    simpa only [List.append_assoc, List.append_cancel_left_eq, List.singleton_append] using hall
  refine ⟨rest, hrounds.symm, hbytes, hpackets, ?_⟩
  have hchanges := Mcu.countP_changes_le fun r hr =>
    (hlogged'.rounds r (hrounds ▸ List.mem_append_right _ hr)).2
  rw [← hbytes, List.length_append]
  exact hchanges.trans (Nat.le_add_right _ _)

/-- The handshake without timeouts. -/
def shakesHands : List Action :=
  bootLine ++ somGreets ++ [.deliverToMcu, .mcuReceive, .mcuDone, .mcuSend, .mcuDone, .deliverToSom,
    .somReceive 1, .somDone, .somDone]

/-- The SoM ends in the middle of its first answer. -/
def tornAnswer : List Action :=
  shakesHands ++ loopWrites ++ List.replicate 37 .deliverToSom ++
    [.somReceive 9, .somDone, .somReceive 28, .somDone, .somSend, .somSend]

/-- Two bytes of the answer are applied, and stay. -/
def tornRounds : List Action :=
  [.deliverToMcu, .deliverToMcu, .mcuReceive, .mcuReceive, .mcuTimeout .controlSurface] ++
    loopWrites ++ [.mcuTimeout .controlSurface]

theorem commands_tornAnswer :
    ∃ s t : Link ℚ,
      run (step (Samples.steady { elevatorStickPosition := 50 } {}) .level) boot tornAnswer =
        some s ∧
      run (step (Samples.steady { elevatorStickPosition := 50 } {}) .level) s tornRounds = some t ∧
      ∃ rest, t.mcu.rounds = s.mcu.rounds ++ rest ∧
        rest.flatMap Round.got ++ (t.mcu.got ++ t.toMcu.pending) =
          s.mcu.got ++ s.toMcu.pending := by
  have hany : (run (step (Samples.steady { elevatorStickPosition := 50 } {}) SomConfig.level) boot
      tornAnswer).any fun s => decide (s.mcu.phase = .reading .controlSurface []) &&
        (run (step (Samples.steady { elevatorStickPosition := 50 } {}) SomConfig.level) s
          tornRounds).isSome := by
    decide +kernel
  obtain ⟨s, hs, hboth⟩ := (Option.any_eq_true _ _).mp hany
  obtain ⟨hphase, hsome⟩ := Bool.and_eq_true_iff.mp hboth
  obtain ⟨t, ht⟩ := Option.isSome_iff_exists.mp hsome
  have hloop : s.mcu.InLoop := by
    rw [Mcu.InLoop, of_decide_eq_true hphase]
    trivial
  obtain ⟨rest, hrounds, hbytes, -⟩ := commands_of_silence hs hloop ht (by decide)
  exact ⟨s, t, hs, ht, rest, hrounds, hbytes⟩

/-! ## The servo -/

/-- The bytes that the SoM still has to write and those on the way are the answers that the
microcontroller has not applied, one at most. -/
theorem answers_of_prompt (h : t.Prompt samples c) :
    t.som.left.length + (t.mcu.got ++ t.toMcu.pending).length =
        4 * (t.som.iterations.length - t.mcu.rounds.length) ∧
      t.som.iterations.length ≤ t.mcu.rounds.length + 1 := by
  have hrounds := (counts_of_prompt h).1
  have hconsumed := length_consumed_of_prompt h
  have hsent := (Mcu.sent_of_fromLoop h.traced h.fromLoop).length_le
  have hreceived := congrArg List.length h.received
  have hreplies := congrArg List.length h.replying.sent_left
  have htoSom := congrArg List.length h.conserved.toSom
  have htoMcu := congrArg List.length h.conserved.toMcu
  have hgot := Mcu.length_flatMap_got h.full
  rw [loopBytes, Codec.length_encodeAll, List.length_map, List.length_range,
    size_loopCodec] at hsent
  rw [List.length_append, hgot] at hreceived
  rw [List.length_append, Codec.length_encodeAll, List.length_map,
    ControlSurfacePacket.size_codec] at hreplies
  rw [List.length_append] at htoSom htoMcu ⊢
  omega

/-- **The servo of a silent SoM.** After a run from power-on in which nothing has timed out, with
both programs in their loops: if the SoM sends nothing more, the packet changes four times at most;
and if every answer has been applied, every value written from then on is that of the last one,
whatever is read from the receiver. -/
theorem servo_of_silence {inputs : ℕ → LoopInput} (hc : Fits c)
    (h : run (step (loopSamples inputs) c) boot acts = some s) (hno : ∀ a ∈ acts, ¬ a.isTimeout)
    (hloop : s.mcu.InLoop) (hmain : s.som.InMainLoop)
    (h' : run (step (loopSamples inputs) c) s acts' = some t) (hsilent : .somSend ∉ acts') :
    ∃ rest, t.mcu.rounds = s.mcu.rounds ++ rest ∧
      rest.countP (fun r => r.after ≠ r.before) ≤ 4 ∧
      (s.mcu.rounds.length = s.som.iterations.length →
        t.mcu.servo = s.mcu.servo ++ List.replicate rest.length (servoDuty s.mcu.csPacket)) := by
  obtain ⟨rest, hrounds, -, hpackets, hchanges⟩ := commands_of_silence h hloop h' hsilent
  obtain ⟨hleft, hahead⟩ := answers_of_prompt ((smooth_of_boot hc h hno).prompt hmain)
  -- `loop` alone has got the same bytes, and the SoM's iterations are the same
  have hmcu : (s.sinceHandshake (loopSamples inputs)).mcu = _ := Mcu.sinceSetup_of_inLoop hloop
  rw [hmcu] at hleft hahead
  have honTheWay : (s.mcu.got ++ s.toMcu.pending).length ≤
      4 * (s.som.iterations.length - s.mcu.rounds.length) := (Nat.le_add_left _ _).trans hleft.le
  have hiterations : s.som.iterations.length ≤ s.mcu.rounds.length + 1 := hahead
  refine ⟨rest, hrounds, by omega, fun happlied => ?_⟩
  have hunchanged : ∀ r ∈ rest, r.after = r.before := by
    have hnone : rest.countP (fun r => r.after ≠ r.before) = 0 := by omega
    rw [List.countP_eq_zero] at hnone
    intro r hr
    simpa using hnone r hr
  have hafter := Mcu.map_after_of_unchanged hpackets hunchanged
  have hservo : rest.map (fun r => servoDuty r.after) =
      List.replicate rest.length (servoDuty s.mcu.csPacket) := by
    rw [← List.map_replicate, ← hafter, List.map_map]
    rfl
  rw [Mcu.servo, hrounds, List.map_append, hservo]
  rfl

/-- The aileron stick is held a fifth of the way up. -/
def heldStick : ℕ → LoopInput := fun _ => ⟨1000, 1600, 1500, 1500, 1000, 0, {}⟩

/-- After one iteration the SoM is silent. -/
theorem servo_heldStick :
    ∃ s t : Link ℚ,
      run (step (loopSamples heldStick) .level) boot
        (shakesHands ++ loopWrites ++ somAnswers ++ loopReads) = some s ∧
      run (step (loopSamples heldStick) .level) s (loopWrites ++ [.mcuTimeout .controlSurface]) =
        some t ∧
      ∃ rest, t.mcu.rounds = s.mcu.rounds ++ rest ∧
        t.mcu.servo = s.mcu.servo ++ List.replicate rest.length (servoDuty s.mcu.csPacket) := by
  have hany : (run (step (loopSamples heldStick) SomConfig.level) boot
      (shakesHands ++ loopWrites ++ somAnswers ++ loopReads)).any fun s =>
        decide (s.mcu.phase = Mcu.loopPhase (loopSamples heldStick) 1 ∧
          s.mcu.rounds.length = s.som.iterations.length) &&
        (s.som.isInMainLoop && (run (step (loopSamples heldStick) SomConfig.level) s
          (loopWrites ++ [.mcuTimeout .controlSurface])).isSome) := by
    decide +kernel
  obtain ⟨s, hs, hall⟩ := (Option.any_eq_true _ _).mp hany
  obtain ⟨hdecided, hboth⟩ := Bool.and_eq_true_iff.mp hall
  obtain ⟨hmain, hsome⟩ := Bool.and_eq_true_iff.mp hboth
  obtain ⟨hphase, happlied⟩ := of_decide_eq_true hdecided
  obtain ⟨t, ht⟩ := Option.isSome_iff_exists.mp hsome
  have hfits : Fits SomConfig.level := ⟨by decide, rfl⟩
  have hloop : s.mcu.InLoop := by
    rw [Mcu.InLoop, hphase]
    trivial
  obtain ⟨rest, hrounds, -, hservo⟩ := servo_of_silence hfits hs (by decide) hloop
    (Som.isInMainLoop_iff.mp hmain) ht (by decide)
  exact ⟨s, t, hs, ht, rest, hrounds, hservo happlied⟩

/-! ## The microcontroller alone -/

variable (samples c) in
/-- The microcontroller alone can come to a state with the property. -/
def McuReaches (s : Link D) (P : Link D → Prop) : Prop :=
  Reaches (step samples c) (fun a => a.isMcu) s P

/-- A write comes to its end. -/
theorem reaches_written {w : McuWrite} {left : List UInt8}
    (hphase : s.mcu.phase = .writing w left) :
    McuReaches samples c s fun t => t.mcu.phase = .writing w [] ∧ t.mcu.rounds = s.mcu.rounds := by
  induction left generalizing s with
  | nil => exact Reaches.refl ⟨hphase, rfl⟩
  | cons b left ih =>
    refine Reaches.of_step (a := .mcuSend) rfl (t := { s with
      mcu := { s.mcu with phase := .writing w left, sent := s.mcu.sent ++ [b] }
      toSom := s.toSom.send b }) ?_ (ih rfl)
    simp [step, Mcu.send, hphase]

/-- A read comes to its end: it has got everything, or it times out. -/
theorem reaches_read {r : McuRead} {got : List UInt8} (hphase : s.mcu.phase = .reading r got)
    (hfits : got.length ≤ r.size) :
    McuReaches samples c s fun t => t.mcu = Mcu.finishRead samples s.mcu r got := by
  rcases hfits.eq_or_lt with hall | hlt
  · refine Reaches.of_step (a := .mcuDone) rfl
      (t := { s with mcu := Mcu.finishRead samples s.mcu r got }) ?_ (Reaches.refl rfl)
    simp [step, Mcu.done, hphase, hall]
  · refine Reaches.of_step (a := .mcuTimeout r) rfl
      (t := { s with mcu := Mcu.finishRead samples s.mcu r got }) ?_ (Reaches.refl rfl)
    simp [step, Mcu.timeout, hphase, hlt]

theorem reaches_of_done {m : Mcu} {P : Link D → Prop} (hdone : s.mcu.done samples = some m)
    (h : McuReaches samples c { s with mcu := m } P) : McuReaches samples c s P :=
  Reaches.of_step (a := .mcuDone) rfl (by simp [step, hdone]) h

variable {n : ℕ}

theorem reaches_round_of_reading {got : List UInt8}
    (hphase : s.mcu.phase = .reading .controlSurface got)
    (hfits : got.length ≤ McuRead.controlSurface.size) (hn : s.mcu.rounds.length = n) :
    McuReaches samples c s fun t => t.mcu.rounds.length = n + 1 := by
  refine (reaches_read hphase hfits).trans fun t ht => Reaches.refl ?_
  rw [ht, ← hn]
  exact List.length_append

theorem reaches_round_of_imu {left : List UInt8} (hphase : s.mcu.phase = .writing .imu left)
    (hn : s.mcu.rounds.length = n) :
    McuReaches samples c s fun t => t.mcu.rounds.length = n + 1 := by
  refine (reaches_written hphase).trans fun t ht => ?_
  obtain ⟨hwritten, hrounds⟩ := ht
  refine reaches_of_done (m := { t.mcu with phase := .reading .controlSurface [] }) ?_ ?_
  · rw [Mcu.done, hwritten]
  · exact reaches_round_of_reading rfl (Nat.zero_le _) (by rw [← hn, ← hrounds])

theorem reaches_round_of_rcRx {left : List UInt8} (hphase : s.mcu.phase = .writing .rcRx left)
    (hn : s.mcu.rounds.length = n) :
    McuReaches samples c s fun t => t.mcu.rounds.length = n + 1 := by
  refine (reaches_written hphase).trans fun t ht => ?_
  obtain ⟨hwritten, hrounds⟩ := ht
  refine reaches_of_done (m := { t.mcu with
    phase := .writing .imu (ImuPacket.codec.encode (samples t.mcu.rounds.length).2) }) ?_ ?_
  · rw [Mcu.done, hwritten]
  · exact reaches_round_of_imu rfl (by rw [← hn, ← hrounds])

theorem reaches_round_of_echo {left : List UInt8} (hphase : s.mcu.phase = .writing .echo left)
    (hn : s.mcu.rounds.length = n) :
    McuReaches samples c s fun t => t.mcu.rounds.length = n + 1 := by
  refine (reaches_written hphase).trans fun t ht => ?_
  obtain ⟨hwritten, hrounds⟩ := ht
  refine reaches_of_done (m := { t.mcu with
    phase := Mcu.loopPhase samples t.mcu.rounds.length, preamble := t.mcu.sent }) ?_ ?_
  · rw [Mcu.done, hwritten]
  · exact reaches_round_of_rcRx rfl (by rw [← hn, ← hrounds])

theorem reaches_round_of_handshake {got : List UInt8}
    (hphase : s.mcu.phase = .reading .handshake got) (hfits : got.length ≤ McuRead.handshake.size)
    (hn : s.mcu.rounds.length = n) :
    McuReaches samples c s fun t => t.mcu.rounds.length = n + 1 := by
  refine (reaches_read hphase hfits).trans fun t ht => ?_
  exact reaches_round_of_echo (congrArg Mcu.phase ht) ((congrArg (·.rounds.length) ht).trans hn)

theorem reaches_round_of_flush {left : List UInt8} (hphase : s.mcu.phase = .writing .flush left)
    (hn : s.mcu.rounds.length = n) :
    McuReaches samples c s fun t => t.mcu.rounds.length = n + 1 := by
  refine (reaches_written hphase).trans fun t ht => ?_
  obtain ⟨hwritten, hrounds⟩ := ht
  refine reaches_of_done (m := { t.mcu with phase := .reading .handshake [] }) ?_ ?_
  · rw [Mcu.done, hwritten]
  · exact reaches_round_of_handshake rfl (Nat.zero_le _) (by rw [← hn, ← hrounds])

/-- From wherever it stands, the microcontroller comes to the end of a round by itself. -/
theorem reaches_round (hlogged : s.mcu.Logged) (hn : s.mcu.rounds.length = n) :
    McuReaches samples c s fun t => t.mcu.rounds.length = n + 1 := by
  cases hphase : s.mcu.phase with
  | writing w left =>
    cases w with
    | flush => exact reaches_round_of_flush hphase hn
    | echo => exact reaches_round_of_echo hphase hn
    | rcRx => exact reaches_round_of_rcRx hphase hn
    | imu => exact reaches_round_of_imu hphase hn
  | reading r got =>
    have hfits := hlogged.fits r got hphase
    cases r with
    | handshake => exact reaches_round_of_handshake hphase hfits hn
    | controlSurface => exact reaches_round_of_reading hphase hfits hn

/-- **The microcontroller never stops.** From every state that a run from power-on reaches, also in
the middle of the handshake, the microcontroller alone can go through any number of rounds. -/
theorem rounds_of_mcu (h : run (step samples c) boot acts = some s) (n : ℕ) :
    ∃ acts' t, run (step samples c) s acts' = some t ∧ (∀ a ∈ acts', a.isMcu) ∧
      t.mcu.rounds.length = s.mcu.rounds.length + n := by
  have hlogged : s.mcu.Logged :=
    mcu_of_run (Mcu.logged_invariant samples) (fun _ _ => trivial) Mcu.logged_boot h
  have hround : ∀ (k : ℕ) (u : Link D),
      (u.mcu.Logged ∧ u.mcu.rounds.length = s.mcu.rounds.length + k) →
        McuReaches samples c u fun t =>
          t.mcu.Logged ∧ t.mcu.rounds.length = s.mcu.rounds.length + (k + 1) := by
    intro k u hu
    have hreaches : McuReaches samples c u fun t =>
        t.mcu.rounds.length = s.mcu.rounds.length + k + 1 := reaches_round hu.1 hu.2
    obtain ⟨acts', t, hrun, hacts, ht⟩ := hreaches
    exact ⟨acts', t, hrun, hacts,
      mcu_of_run (Mcu.logged_invariant samples) (fun _ _ => trivial) hu.1 hrun, ht⟩
  obtain ⟨acts', t, hrun, hacts, -, ht⟩ := Reaches.iterate hround ⟨hlogged, rfl⟩ n
  exact ⟨acts', t, hrun, hacts, ht⟩

theorem rounds_from_power_on :
    ∃ acts t, run (step (Samples.steady {} {}) SomConfig.level) (boot : Link ℚ) acts = some t ∧
      (∀ a ∈ acts, a.isMcu) ∧ t.mcu.rounds.length = 0 + 100 := by
  have hrun : run (step (Samples.steady {} {}) SomConfig.level) (boot : Link ℚ) [] =
      some boot := rfl
  exact rounds_of_mcu hrun 100

end Link

end RcPlane
