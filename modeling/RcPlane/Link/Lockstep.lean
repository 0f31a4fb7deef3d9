import RcPlane.Link.ReadIntegrity

/-!
# Lock step

Without timeouts the two loops proceed in lock step, however their bytes are interleaved. The
microcontroller waits for the answer before it goes on, so neither loop is ever a whole iteration
ahead of the other; the bytes on the way then determine where each program is, and where both
would wait for the other the counts do not add up.

## Main definitions

* `Action.isTimeout`: the actions that end an operation early
* `Link.loopCalls`: the autopilot's calls on the packets that the loop writes

## Main results

* `Link.reply_of_round`: a whole answer found at a multiple of 4 bytes is the answer of that place
* `Link.counts_of_prompt`: neither loop is a whole iteration ahead
* `Link.lockstep`: every run without timeouts
-/

namespace RcPlane

open Foundation SerialController

/-- The action is a timeout. -/
def Action.isTimeout : Action → Bool
  | .mcuTimeout _ => true
  | .somTimeout _ => true
  | _ => false

namespace Link

variable {D : Type} [Double D] {samples : Samples} {c : SomConfig D} {debugMessage : DebugMessage}
  {acts : List Action} {t : Link D}

/-! ## Answers -/

/-- A round that got a whole answer, after a whole number of them, applies the answer of that
place. -/
theorem reply_of_round (h : t.Looping samples c) (hreply : t.som.Replying) {pre post : List Round}
    {r : Round} (hrounds : t.mcu.rounds = pre ++ r :: post)
    (hgot : r.got.length = ControlSurfacePacket.codec.size) {j : ℕ}
    (hpre : (pre.flatMap Round.got).length = 4 * j) :
    (t.som.iterations.map Iteration.reply)[j]? = some r.after := by
  -- the bytes of the round, in the stream of answers
  have hstream : pre.flatMap Round.got ++ (r.got ++ (post.flatMap Round.got ++ t.mcu.got)) <+:
      ControlSurfacePacket.codec.encodeAll (t.som.iterations.map Iteration.reply) := by
    have hreceived := h.received
    rw [hrounds, List.flatMap_append, List.flatMap_cons, List.append_assoc,
      List.append_assoc] at hreceived
    rw [← hreply.sent_left, h.conserved.toMcu, hreceived, List.append_assoc]
    exact List.prefix_append _ _
  have hafter : r.after = ControlSurfacePacket.codec.decode r.got := by
    have hmem : r ∈ t.mcu.rounds := by
      rw [hrounds]
      exact List.mem_append_right _ List.mem_cons_self
    rw [(h.traced.rounds r hmem).2]
    exact Mcu.readInto_full hgot _
  rw [← ControlSurfacePacket.codec.encode_decode _ hgot] at hstream
  rw [hafter]
  exact Codec.getElem?_of_aligned (by decide) hstream hpre

/-! ## Counts -/

/-- The calls of the autopilot on the packets of the first `n` iterations of the loop. -/
def loopCalls (samples : Samples) (c : SomConfig D) (n : ℕ) : List (TriggerCall D) :=
  (List.range n).map fun k => ⟨c.outOfRange k, (samples k).1, (samples k).2⟩

/-- What is kept in addition as long as nothing times out. -/
structure Prompt (samples : Samples) (c : SomConfig D) (t : Link D) : Prop
    extends t.Looping samples c where
  replying : t.som.Replying
  prompt : t.som.Prompt
  full : t.mcu.Full

theorem prompt_of_run (h : run (step samples c) (aligned samples debugMessage) acts = some t)
    (hno : ∀ a ∈ acts, ¬ a.isTimeout) : t.Prompt samples c where
  toLooping := looping_of_run h
  replying := som_of_run (Som.replying_invariant c) (fun _ hmem => (hno _ hmem rfl).elim)
    (Som.replying_aligned debugMessage) h
  prompt := som_of_run (Som.prompt_invariant c) (fun _ hmem => hno _ hmem rfl)
    (Som.prompt_aligned debugMessage) h
  full := mcu_of_run (Mcu.full_invariant samples) (fun _ hmem => hno _ hmem rfl)
    (Mcu.full_aligned samples) h

/-- The bytes consumed: the packets of the iterations that are over, and the first packet of the
current one once it is read. -/
theorem length_consumed_of_prompt (h : t.Prompt samples c) :
    t.som.consumed.length = 37 * t.som.iterations.length + 9 * t.som.taken.length := by
  have halt := alternating_reads t.som
  have hlen := length_returnedBytes halt
  rw [timeouts_eq_zero h.prompt.reads, timeouts_eq_zero h.prompt.reads] at hlen
  have hreads : t.som.reads.length = 2 * t.som.iterations.length + t.som.taken.length := by
    rw [Som.reads, List.length_append, length_flatMap_reads]
  have htaken : t.som.taken.length ≤ 1 := by
    unfold Som.taken
    split <;> simp
  rw [h.looping.consumed]
  omega

/-- **Counts.** The two loops are never a whole iteration apart, and so little is on the way. -/
theorem counts_of_prompt (h : t.Prompt samples c) :
    t.mcu.rounds.length ≤ t.som.iterations.length ∧
      (t.som.serial.streamBuffer ++ t.toSom.pending).length ≤ 37 ∧
      t.toMcu.pending.length ≤ 4 := by
  -- every stream measured at both of its ends
  have hconsumed := length_consumed_of_prompt h
  have hsent := (Mcu.sent_of_fromLoop h.traced h.fromLoop).length_le
  have hreceived := congrArg List.length h.received
  have hreplies := congrArg List.length h.replying.sent_left
  have htoSom := congrArg List.length h.conserved.toSom
  have htoMcu := congrArg List.length h.conserved.toMcu
  have hgot := Mcu.length_flatMap_got h.full
  rw [loopBytes, Codec.length_encodeAll, List.length_map, List.length_range,
    size_loopCodec] at hsent
  rw [List.length_append, hgot] at hreceived
  rw [List.length_append, Codec.length_encodeAll, List.length_map,
    ControlSurfacePacket.size_codec] at hreplies
  rw [List.length_append] at htoSom htoMcu
  omega

/-! ## Samples and answers -/

theorem iteration_of_prompt (h : t.Prompt samples c) {i : Iteration}
    (hi : i ∈ t.som.iterations) : i.rcRx.didTimeout = false ∧ i.imu.didTimeout = false := by
  have hreads : ∀ r ∈ i.reads, r.2.didTimeout = false := by
    intro r hr
    apply h.prompt.reads
    exact List.mem_append_left _ (List.mem_flatMap.mpr ⟨i, hi, hr⟩)
  exact ⟨hreads ⟨.rcRx, i.rcRx⟩ (by simp [Iteration.reads]),
    hreads ⟨.imu, i.imu⟩ (by simp [Iteration.reads])⟩

theorem calls_of_prompt (h : t.Prompt samples c) :
    Som.calls c t.som.iterations = loopCalls samples c t.som.iterations.length := by
  apply List.ext_getElem
  · simp [Som.calls, loopCalls]
  · intro k hk _
    rw [Som.calls, List.length_mapIdx] at hk
    have hsample := (sample_of_iteration h.toLooping hk fun i hi =>
      iteration_of_prompt h (List.mem_of_mem_take hi)).2
    simp only [Som.calls, loopCalls, List.getElem_mapIdx, List.getElem_map, List.getElem_range,
      ← hsample]

/-- The loop applies the autopilot's answers, in order. -/
theorem applied_of_prompt (h : t.Prompt samples c) :
    t.mcu.rounds.map Round.after =
      (AutopilotManager.automaton c.promote c.autopilot).outputs
        (loopCalls samples c t.mcu.rounds.length) := by
  have hle := (counts_of_prompt h).1
  have hreplies : t.som.iterations.map Iteration.reply =
      (AutopilotManager.automaton c.promote c.autopilot).outputs
        (loopCalls samples c t.som.iterations.length) := by
    rw [h.triggered.replies, calls_of_prompt h]
  -- the answers to the first calls are those of a shorter run
  have htake : loopCalls samples c t.mcu.rounds.length =
      (loopCalls samples c t.som.iterations.length).take t.mcu.rounds.length := by
    rw [loopCalls, loopCalls, ← List.map_take, List.take_range, min_eq_left hle]
  rw [htake, Automaton.outputs_take, ← hreplies]
  apply List.ext_getElem?
  intro k
  rcases Nat.lt_or_ge k t.mcu.rounds.length with hk | hk
  · -- the rounds before the `k`-th got `4 * k` bytes
    have hrounds : t.mcu.rounds = t.mcu.rounds.take k ++
        t.mcu.rounds[k] :: t.mcu.rounds.drop (k + 1) := by
      rw [← List.drop_eq_getElem_cons hk, List.take_append_drop]
    have hpre : ((t.mcu.rounds.take k).flatMap Round.got).length = 4 * k := by
      rw [Mcu.length_flatMap_got fun r hr => h.full r (List.mem_of_mem_take hr),
        List.length_take, min_eq_left hk.le]
    have hgot := h.full _ (List.getElem_mem hk)
    rw [List.getElem?_take_of_lt hk, reply_of_round h.toLooping h.replying hrounds hgot hpre,
      List.getElem?_map, List.getElem?_eq_getElem hk]
    rfl
  · rw [List.getElem?_eq_none, List.getElem?_eq_none]
    · rw [List.length_take]
      omega
    · rw [List.length_map]
      exact hk

/-! ## Progress -/

/-- Where both programs wait for bytes and none are on the way, the counts do not add up. -/
theorem not_both_waiting (h : t.Prompt samples c) {got : List UInt8}
    (hmcu : t.mcu.phase = .reading .controlSurface got) (hgot : got.length < 4) {r : SomRead}
    {need : ℕ} (hsom : t.som.phase = .reading r (need + 1)) (htoSom : t.toSom.pending = [])
    (htoMcu : t.toMcu.pending = []) : False := by
  -- the loop has written the packets of its iteration, and waits for the answer
  have hconsumed := length_consumed_of_prompt h
  have hsent : t.mcu.sent = loopBytes samples (t.mcu.rounds.length + 1) := by
    rw [h.traced.sent_of_reading hmcu, Mcu.script, hmcu, h.fromLoop.preamble]
    rfl
  have hlength := congrArg List.length hsent
  have hreceived := congrArg List.length h.received
  have hreplies := congrArg List.length h.replying.sent_left
  have hconservedSom := congrArg List.length h.conserved.toSom
  have hconservedMcu := congrArg List.length h.conserved.toMcu
  have hrounds := Mcu.length_flatMap_got h.full
  have hbuffer := h.prompt.reading r (need + 1) hsom
  have hloop := h.prompt.inMainLoop
  rw [loopBytes, Codec.length_encodeAll, List.length_map, List.length_range,
    size_loopCodec] at hlength
  rw [List.length_append, hrounds, Mcu.got, hmcu] at hreceived
  rw [List.length_append, Codec.length_encodeAll, List.length_map,
    ControlSurfacePacket.size_codec, Som.left, hsom, List.length_nil] at hreplies
  rw [htoSom, List.append_nil, List.length_append] at hconservedSom
  rw [htoMcu, List.append_nil] at hconservedMcu
  rw [Som.InMainLoop, hsom] at hloop
  rw [Som.taken, hsom] at hconsumed
  -- with nothing on the lines, all 37 bytes of the iteration are with the SoM
  cases r with
  | handshake attempt => exact hloop
  | rcRx =>
    have hsize : (SomRead.rcRx).type.codec.size = 9 := rfl
    simp only [List.length_nil] at hconsumed
    simp only at hreceived
    omega
  | imu rcRx =>
    have hsize : (SomRead.imu rcRx).type.codec.size = 28 := rfl
    simp only [List.length_singleton] at hconsumed
    simp only at hreceived
    omega

/-- An action that is no timeout can be taken. -/
def CanGoOn (samples : Samples) (c : SomConfig D) (t : Link D) : Prop :=
  ∃ a : Action, ¬ a.isTimeout ∧ (step samples c t a).isSome

/-- A write of the microcontroller can go on. -/
theorem canGoOn_of_mcu_writing {w : McuWrite} {left : List UInt8}
    (hphase : t.mcu.phase = .writing w left) : CanGoOn samples c t := by
  cases left with
  | nil =>
    refine ⟨.mcuDone, Bool.false_ne_true, ?_⟩
    cases w <;> simp [step, Mcu.done, hphase]
  | cons b left => exact ⟨.mcuSend, Bool.false_ne_true, by simp [step, Mcu.send, hphase]⟩

/-- So can a write of the SoM. -/
theorem canGoOn_of_som_writing {w : SomWrite} {left : List UInt8}
    (hphase : t.som.phase = .writing w left) : CanGoOn samples c t := by
  cases left with
  | nil => exact ⟨.somDone, Bool.false_ne_true, by simp [step, Som.done, hphase]⟩
  | cons b left => exact ⟨.somSend, Bool.false_ne_true, by simp [step, Som.send, hphase]⟩

/-- A read of the microcontroller can go on if it has everything, or something is on the way. -/
theorem canGoOn_of_mcu_reading {r : McuRead} {got : List UInt8}
    (hphase : t.mcu.phase = .reading r got)
    (h : got.length = r.size ∨ got.length < r.size ∧ t.toMcu.pending ≠ []) :
    CanGoOn samples c t := by
  rcases h with hall | ⟨hlt, hpending⟩
  · exact ⟨.mcuDone, Bool.false_ne_true, by simp [step, Mcu.done, hphase, hall]⟩
  · rcases Line.deliver_or_receive_of_pending hpending with ⟨l, hl⟩ | ⟨b, l, hl⟩
    · exact ⟨.deliverToMcu, Bool.false_ne_true, by simp [step, hl]⟩
    · have hfits : got.length + 1 ≤ r.size := hlt
      exact ⟨.mcuReceive, Bool.false_ne_true, by simp [step, hl, Mcu.receive, hphase, hfits]⟩

/-- So can a read of the SoM. -/
theorem canGoOn_of_som_reading {r : SomRead} {need : ℕ}
    (hphase : t.som.phase = .reading r need) (h : need = 0 ∨ t.toSom.pending ≠ []) :
    CanGoOn samples c t := by
  cases need with
  | zero => exact ⟨.somDone, Bool.false_ne_true, by simp [step, Som.done, hphase]⟩
  | succ need =>
    rcases h with hzero | hpending
    · cases hzero
    · rcases Line.deliver_or_receive_of_pending hpending with ⟨l, hl⟩ | ⟨b, l, hl⟩
      · exact ⟨.deliverToSom, Bool.false_ne_true, by simp [step, hl]⟩
      · exact ⟨.somReceive 1, Bool.false_ne_true, by simp [step, hl, Som.receive, hphase]⟩

/-- **Progress.** Without timeouts the two loops are never stuck. -/
theorem canGoOn_of_prompt (h : t.Prompt samples c) : CanGoOn samples c t := by
  cases hmcu : t.mcu.phase with
  | writing w left => exact canGoOn_of_mcu_writing hmcu
  | reading r got =>
    have hin := h.fromLoop.inLoop
    rw [Mcu.InLoop, hmcu] at hin
    cases r with
    | handshake => exact hin.elim
    | controlSurface =>
      have hfits : got.length ≤ 4 := h.traced.fits _ _ hmcu
      rcases hfits.eq_or_lt with hall | hlt
      · exact canGoOn_of_mcu_reading hmcu (Or.inl hall)
      by_cases htoMcu : t.toMcu.pending = []
      · -- nothing is on the way to the microcontroller, so the SoM has to move
        have hloop := h.prompt.inMainLoop
        cases hsom : t.som.phase with
        | flushing =>
          rw [Som.InMainLoop, hsom] at hloop
          exact hloop.elim
        | connected =>
          rw [Som.InMainLoop, hsom] at hloop
          exact hloop.elim
        | halted =>
          rw [Som.InMainLoop, hsom] at hloop
          exact hloop.elim
        | writing w left => exact canGoOn_of_som_writing hsom
        | reading r need =>
          cases need with
          | zero => exact canGoOn_of_som_reading hsom (Or.inl rfl)
          | succ need =>
            -- a read that lacks bytes goes on unless both sides wait
            by_cases htoSom : t.toSom.pending = []
            · exact (not_both_waiting h hmcu hlt hsom htoSom htoMcu).elim
            · exact canGoOn_of_som_reading hsom (Or.inr htoSom)
      · exact canGoOn_of_mcu_reading hmcu (Or.inr ⟨hlt, htoMcu⟩)

/-! ## Lock step -/

/-- **Lock step.** In every run from an aligned start in which nothing times out, the SoM's
iterations use the samples of the loop's iterations, the loop applies the autopilot's answers to
them, at most 37 bytes are on the way to the SoM or in its buffer and at most 4 on the way to the
microcontroller, and the system is not stuck. -/
theorem lockstep (h : run (step samples c) (aligned samples debugMessage) acts = some t)
    (hno : ∀ a ∈ acts, ¬ a.isTimeout) :
    (t.som.iterations.map fun i => (i.rcRx.packet, i.imu.packet)) =
        (List.range t.som.iterations.length).map samples ∧
      t.mcu.rounds.map Round.after =
        (AutopilotManager.automaton c.promote c.autopilot).outputs
          ((List.range t.mcu.rounds.length).map fun k =>
            ⟨c.outOfRange k, (samples k).1, (samples k).2⟩) ∧
      (t.som.serial.streamBuffer ++ t.toSom.pending).length ≤ 37 ∧
      t.toMcu.pending.length ≤ 4 ∧
      ∃ a : Action, ¬ a.isTimeout ∧ (step samples c t a).isSome := by
  have hprompt := prompt_of_run h hno
  obtain ⟨-, htoSom, htoMcu⟩ := counts_of_prompt hprompt
  refine ⟨?_, applied_of_prompt hprompt, htoSom, htoMcu, canGoOn_of_prompt hprompt⟩
  apply List.ext_getElem
  · simp
  · intro k hk _
    rw [List.length_map] at hk
    simp only [List.getElem_map, List.getElem_range]
    exact (sample_of_iteration hprompt.toLooping hk fun i hi =>
      iteration_of_prompt hprompt (List.mem_of_mem_take hi)).2

/-- One whole iteration of both loops. -/
theorem lockstep_one_iteration :
    ∃ t : Link ℚ, run (step (Samples.steady { aileronStickPosition := 50 } {}) .level)
        (aligned (Samples.steady { aileronStickPosition := 50 } {}) {})
        (loopWrites ++ somAnswers ++ loopReads) = some t ∧
      t.mcu.rounds.length = 1 ∧
      t.mcu.rounds.map Round.after =
        (AutopilotManager.automaton SomConfig.level.promote SomConfig.level.autopilot).outputs
          ((List.range t.mcu.rounds.length).map fun k => ⟨SomConfig.level.outOfRange k,
            (Samples.steady { aileronStickPosition := 50 } {} k).1,
            (Samples.steady { aileronStickPosition := 50 } {} k).2⟩) := by
  have hany : (run (step (Samples.steady { aileronStickPosition := 50 } {}) .level)
      (aligned (Samples.steady { aileronStickPosition := 50 } {}) {})
      (loopWrites ++ somAnswers ++ loopReads)).any
        fun t => decide (t.mcu.rounds.length = 1) := by
    decide +kernel
  obtain ⟨t, ht, hone⟩ := (Option.any_eq_true _ _).mp hany
  exact ⟨t, ht, of_decide_eq_true hone, (lockstep ht (by decide)).2.1⟩

end Link

end RcPlane
