import RcPlane.Link.Lockstep

/-!
# Commands under timeouts

A round of the loop that gets a whole answer should get the answer to its own packets, and one
that does not should keep `csPacket`. The answers are queued on the line like any other bytes, so
a read that timed out leaves its answer to the next round, and a read of the SoM that timed out
shifts the packets it answers; nothing in either program finds this out. Two counts decide: the
bytes that the rounds before got place the answer among the answers, and the bytes that the reads
before it returned place its packets among the packets.

## Main definitions

* `Answers`: an iteration of the SoM answers the packets of the loop's `k`-th iteration
* `Obeys`, `Commands`: a round applies a whole and fresh command, or none
* `Punctual`: nothing timed out that the command of a round depends on

## Main results

* `Link.obeys_iff`: one round
* `Link.commands_iff_punctual`: a run
-/

namespace RcPlane

open Foundation SerialController

/-! ## Rounds -/

theorem length_flatMap_got_le {rounds : List Round}
    (h : ∀ r ∈ rounds, r.got.length ≤ ControlSurfacePacket.codec.size) :
    (rounds.flatMap Round.got).length ≤ 4 * rounds.length := by
  induction rounds with
  | nil => exact Nat.zero_le _
  | cons r rounds ih =>
    have hr : r.got.length ≤ 4 := h r List.mem_cons_self
    have hrest := ih fun r' hr' => h r' (List.mem_cons_of_mem r hr')
    rw [List.flatMap_cons, List.length_append, List.length_cons]
    omega

/-- Rounds that got all the bytes they asked for together got them one by one. -/
theorem full_of_length_flatMap_got {rounds : List Round}
    (h : ∀ r ∈ rounds, r.got.length ≤ ControlSurfacePacket.codec.size)
    (hall : (rounds.flatMap Round.got).length = 4 * rounds.length) :
    ∀ r ∈ rounds, r.got.length = ControlSurfacePacket.codec.size := by
  induction rounds with
  | nil =>
    intro r hr
    cases hr
  | cons r rounds ih =>
    have hr : r.got.length ≤ 4 := h r List.mem_cons_self
    have hrest := length_flatMap_got_le fun r' hr' => h r' (List.mem_cons_of_mem r hr')
    rw [List.flatMap_cons, List.length_append, List.length_cons] at hall
    intro r' hr'
    rcases List.mem_cons.mp hr' with rfl | hr'
    · show r'.got.length = 4
      omega
    · exact ih (fun r'' hr'' => h r'' (List.mem_cons_of_mem r hr'')) (by omega) r' hr'

/-- Reading into a packet leaves it as it was exactly when the bytes that arrived are those that
were there. -/
theorem readInto_eq_self_iff {α : Type} {c : Codec α} {packet : α} {got : List UInt8}
    (h : got.length ≤ c.size) : readInto c packet got = packet ↔ got <+: c.encode packet := by
  have hlen : (got ++ (c.encode packet).drop got.length).length = c.size := by
    rw [List.length_append, List.length_drop, c.length_encode]
    omega
  -- compare the encodings
  rw [readInto, eq_comm, ← c.encode_eq_iff hlen]
  constructor
  · intro heq
    exact ⟨_, heq.symm⟩
  · rintro ⟨rest, hrest⟩
    rw [← hrest, List.drop_left]

/-! ## Iterations -/

/-- After the iterations `before`, the iteration read the two packets of the loop's `k`-th
iteration, from where the loop wrote them, and its answer is the autopilot's answer to them. -/
structure Answers {D : Type} [Double D] (samples : Samples) (c : SomConfig D) (k : ℕ)
    (before : List Iteration) (i : Iteration) : Prop where
  rcRx : i.rcRx.didTimeout = false
  imu : i.imu.didTimeout = false
  offset : (returnedBytes (before.flatMap Iteration.reads)).length = 37 * k
  packets : (i.rcRx.packet, i.imu.packet) = samples k
  reply : i.reply =
    (AutopilotManager.trigger c.promote c.autopilot
      ((AutopilotManager.automaton c.promote c.autopilot).after (Som.calls c before))
      ⟨c.outOfRange before.length, i.rcRx.packet, i.imu.packet⟩).2

/-- No read of the iterations timed out. -/
def Complete (iterations : List Iteration) : Prop :=
  ∀ i ∈ iterations, i.rcRx.didTimeout = false ∧ i.imu.didTimeout = false

theorem complete_of_timeouts {iterations : List Iteration}
    (hrcRx : timeouts .rcRx (iterations.flatMap Iteration.reads) = 0)
    (himu : timeouts .imu (iterations.flatMap Iteration.reads) = 0) : Complete iterations := by
  intro i hi
  have hfst := List.countP_eq_zero.mp hrcRx ⟨.rcRx, i.rcRx⟩
    (List.mem_flatMap.mpr ⟨i, hi, List.mem_cons_self⟩)
  have hsnd := List.countP_eq_zero.mp himu ⟨.imu, i.imu⟩
    (List.mem_flatMap.mpr ⟨i, hi, List.mem_cons_of_mem _ List.mem_cons_self⟩)
  exact ⟨by simpa using hfst, by simpa using hsnd⟩

/-- Iterations return no more than a pair of packets each, and as much only if no read timed
out. -/
theorem complete_of_length_returnedBytes {iterations : List Iteration} {k : ℕ}
    (hle : iterations.length ≤ k)
    (hlen : (returnedBytes (iterations.flatMap Iteration.reads)).length = 37 * k) :
    iterations.length = k ∧ Complete iterations := by
  have hall := length_returnedBytes (alternating_flatMap_reads iterations)
  rw [length_flatMap_reads, hlen] at hall
  exact ⟨by omega, complete_of_timeouts (by omega) (by omega)⟩

/-! ## Commands -/

/-- The round got one whole answer of the SoM, to the packets of the round itself, and applied
it. -/
def Fresh {D : Type} [Double D] (samples : Samples) (c : SomConfig D)
    (iterations : List Iteration) (pre : List Round) (r : Round) : Prop :=
  ∃ before i after, iterations = before ++ i :: after ∧
    (pre.flatMap Round.got).length = 4 * before.length ∧
    r.got = ControlSurfacePacket.codec.encode i.reply ∧ r.after = i.reply ∧
    Answers samples c pre.length before i

/-- The round, after the rounds `pre`, applied a whole and fresh command, or got too few bytes and
left `csPacket` as it was. -/
def Obeys {D : Type} [Double D] (samples : Samples) (c : SomConfig D)
    (iterations : List Iteration) (pre : List Round) (r : Round) : Prop :=
  (r.got.length = ControlSurfacePacket.codec.size → Fresh samples c iterations pre r) ∧
    (r.got.length < ControlSurfacePacket.codec.size → r.after = r.before)

/-- Nothing timed out that the command of the round depends on: if it got a whole answer, no read
before it fell short, nor any read of the SoM up to the iteration of that place; if it got too few
bytes, they are those that `csPacket` has anyway. -/
def Punctual (iterations : List Iteration) (pre : List Round) (r : Round) : Prop :=
  (r.got.length = ControlSurfacePacket.codec.size →
    (∀ r' ∈ pre, r'.got.length = ControlSurfacePacket.codec.size) ∧
      Complete (iterations.take (pre.length + 1))) ∧
    (r.got.length < ControlSurfacePacket.codec.size →
      r.got <+: ControlSurfacePacket.codec.encode r.before)

namespace Link

variable {D : Type} [Double D] {samples : Samples} {c : SomConfig D} {debugMessage : DebugMessage}
  {acts : List Action} {t : Link D}

/-- The commands of all rounds that are over. -/
def Commands (samples : Samples) (c : SomConfig D) (t : Link D) : Prop :=
  ∀ pre r post, t.mcu.rounds = pre ++ r :: post → Obeys samples c t.som.iterations pre r

/-- A round that applied a fresh command follows rounds that did not fall short, and the SoM's
iterations up to its own are complete. -/
theorem punctual_of_fresh {pre : List Round} {r : Round}
    (hfits : ∀ r' ∈ pre, r'.got.length ≤ ControlSurfacePacket.codec.size)
    (h : Fresh samples c t.som.iterations pre r) :
    (∀ r' ∈ pre, r'.got.length = ControlSurfacePacket.codec.size) ∧
      Complete (t.som.iterations.take (pre.length + 1)) := by
  obtain ⟨before, i, after, hiterations, hgot, -, -, hanswers⟩ := h
  -- the bytes got bound the answers before it from above, the bytes returned from below
  have hle := length_flatMap_got_le hfits
  have hcount : before.length ≤ pre.length := by omega
  obtain ⟨hlen, hcomplete⟩ := complete_of_length_returnedBytes hcount hanswers.offset
  refine ⟨full_of_length_flatMap_got hfits (by omega), ?_⟩
  rw [hiterations, ← hlen, List.take_length_add_append]
  intro i' hi'
  rcases List.mem_append.mp hi' with hi' | hi'
  · exact hcomplete i' hi'
  · obtain rfl := List.mem_singleton.mp hi'
    exact ⟨hanswers.rcRx, hanswers.imu⟩

/-- Where nothing timed out, the answer of the place is the answer to the packets of the place. -/
theorem fresh_of_punctual (h : t.Looping samples c) (hreply : t.som.Replying)
    {pre post : List Round} {r : Round} (hrounds : t.mcu.rounds = pre ++ r :: post)
    (hgot : r.got.length = ControlSurfacePacket.codec.size)
    (hpre : ∀ r' ∈ pre, r'.got.length = ControlSurfacePacket.codec.size)
    (hcomplete : Complete (t.som.iterations.take (pre.length + 1))) :
    Fresh samples c t.som.iterations pre r := by
  -- the place of the answer, from the bytes that the rounds before got
  have hlen := Mcu.length_flatMap_got hpre
  have happlied := reply_of_round h hreply hrounds hgot hlen
  rw [List.getElem?_map, Option.map_eq_some_iff] at happlied
  obtain ⟨i, hi, hafter⟩ := happlied
  obtain ⟨hk, rfl⟩ := List.getElem?_eq_some_iff.mp hi
  -- the packets of that place, from the reads before it
  obtain ⟨hoffset, hpackets⟩ := sample_of_iteration h hk hcomplete
  have hsplit : t.som.iterations = t.som.iterations.take pre.length ++
      t.som.iterations[pre.length] :: t.som.iterations.drop (pre.length + 1) := by
    rw [← List.drop_eq_getElem_cons hk, List.take_append_drop]
  have hbefore : (t.som.iterations.take pre.length).length = pre.length := by
    rw [List.length_take, min_eq_left hk.le]
  obtain ⟨hrcRx, himu⟩ := hcomplete t.som.iterations[pre.length]
    (List.mem_take_iff_getElem.mpr ⟨pre.length, by omega, rfl⟩)
  refine ⟨_, _, _, hsplit, by rw [hbefore, hlen], ?_, hafter.symm, hrcRx, himu, hoffset, hpackets,
    Som.reply_of_triggered h.triggered hsplit⟩
  -- the round read its answer over the whole of `csPacket`
  have hmem : r ∈ t.mcu.rounds := by
    rw [hrounds]
    exact List.mem_append_right _ List.mem_cons_self
  rw [hafter, (h.traced.rounds r hmem).2, Mcu.readInto_full hgot,
    ControlSurfacePacket.codec.encode_decode _ hgot]

/-- **One round.** A round obeys exactly when nothing timed out that its command depends on. -/
theorem obeys_iff (h : t.Looping samples c) (hreply : t.som.Replying) {pre post : List Round}
    {r : Round} (hrounds : t.mcu.rounds = pre ++ r :: post) :
    Obeys samples c t.som.iterations pre r ↔ Punctual t.som.iterations pre r := by
  have hlog : ∀ r' ∈ pre ++ r :: post, r'.got.length ≤ ControlSurfacePacket.codec.size ∧
      r'.after = readInto ControlSurfacePacket.codec r'.before r'.got := by
    rw [← hrounds]
    exact h.traced.rounds
  obtain ⟨hfits, hafter⟩ := hlog r (List.mem_append_right _ List.mem_cons_self)
  -- a read that fell short leaves the packet alone exactly when it got what was there
  have hprefix : r.after = r.before ↔ r.got <+: ControlSurfacePacket.codec.encode r.before := by
    rw [hafter]
    exact readInto_eq_self_iff hfits
  constructor
  · rintro ⟨hwhole, hshort⟩
    refine ⟨fun hgot => ?_, fun hgot => hprefix.mp (hshort hgot)⟩
    exact punctual_of_fresh (fun r' hr' => (hlog r' (List.mem_append_left _ hr')).1)
      (hwhole hgot)
  · rintro ⟨hwhole, hshort⟩
    refine ⟨fun hgot => ?_, fun hgot => hprefix.mpr (hshort hgot)⟩
    obtain ⟨hpre, hcomplete⟩ := hwhole hgot
    exact fresh_of_punctual h hreply hrounds hgot hpre hcomplete

/-! ## Runs -/

/-- **Commands.** In every run from an aligned start in which no write times out, whichever reads
do, every round applies a whole and fresh command, or keeps the old one if its read fell short,
exactly when nothing timed out that the commands depend on. -/
theorem commands_iff_punctual
    (h : run (step samples c) (aligned samples debugMessage) acts = some t)
    (hwrite : .somTimeout .write ∉ acts) :
    t.Commands samples c ↔
      ∀ pre r post, t.mcu.rounds = pre ++ r :: post → Punctual t.som.iterations pre r := by
  have hreply : t.som.Replying :=
    som_of_run (Som.replying_invariant c) (fun o ho hw => hwrite (hw ▸ ho))
      (Som.replying_aligned debugMessage) h
  constructor
  · intro hcommands pre r post hrounds
    exact (obeys_iff (looping_of_run h) hreply hrounds).mp (hcommands pre r post hrounds)
  · intro hpunctual pre r post hrounds
    exact (obeys_iff (looping_of_run h) hreply hrounds).mpr (hpunctual pre r post hrounds)

/-- A run in which only the second read of the microcontroller times out, with nothing received:
the command of the first round is whole and fresh, and the second round keeps it. -/
theorem commands_kept :
    ∃ t, run (step (Samples.steady { aileronStickPosition := 50 } {}) .level)
        (aligned (Samples.steady { aileronStickPosition := 50 } {}) {})
        (loopWrites ++ somAnswers ++ loopReads ++ loopWrites ++
          [.mcuTimeout .controlSurface]) = some t ∧
      t.mcu.rounds.map (fun r => r.got.length) = [4, 0] ∧
      (t.Commands (Samples.steady { aileronStickPosition := 50 } {}) .level ↔
        ∀ pre r post, t.mcu.rounds = pre ++ r :: post → Punctual t.som.iterations pre r) := by
  have hany : (run (step (Samples.steady { aileronStickPosition := 50 } {}) .level)
      (aligned (Samples.steady { aileronStickPosition := 50 } {}) {})
      (loopWrites ++ somAnswers ++ loopReads ++ loopWrites ++
        [.mcuTimeout .controlSurface])).any
        fun t => decide (t.mcu.rounds.map (fun r => r.got.length) = [4, 0]) := by
    decide +kernel
  obtain ⟨t, ht, hgot⟩ := (Option.any_eq_true _ _).mp hany
  exact ⟨t, ht, of_decide_eq_true hgot, commands_iff_punctual ht (by decide)⟩

/-- The packets of a loop whose sticks are released after the first iteration. -/
def released : Samples := fun n => (if n = 0 then { aileronStickPosition := 50 } else {}, {})

/-- The first read of the microcontroller times out before anything arrives, and the answer comes
late. The second round then gets all four bytes, of the command for the first one's sticks. -/
theorem commands_stale :
    ∃ t, run (step released .level) (aligned released {})
        (loopWrites ++ [.mcuTimeout .controlSurface] ++ somAnswers ++ loopWrites ++
          loopReads) = some t ∧
      ¬ t.Commands released .level ∧
      t.mcu.rounds.map (fun r => (r.got.length, r.after.aileronDeflection)) =
        [(0, 0), (4, 17)] := by
  have hany : (run (step released .level) (aligned released {})
      (loopWrites ++ [.mcuTimeout .controlSurface] ++ somAnswers ++ loopWrites ++
        loopReads)).any fun t =>
      decide (t.som.iterations.length = 1) && decide (t.mcu.rounds.map (fun r =>
        (r.got.length, r.after.aileronDeflection)) = [(0, 0), (4, 17)]) := by
    decide +kernel
  obtain ⟨t, ht, hboth⟩ := (Option.any_eq_true _ _).mp hany
  simp only [Bool.and_eq_true, decide_eq_true_eq] at hboth
  obtain ⟨hone, hrounds⟩ := hboth
  refine ⟨t, ht, fun hcommands => ?_, hrounds⟩
  obtain ⟨first, second, hsplit⟩ : ∃ first second, t.mcu.rounds = [first, second] :=
    List.length_eq_two.mp (by simpa using congrArg List.length hrounds)
  rw [hsplit] at hrounds
  simp only [List.map_cons, List.map_nil, List.cons.injEq, Prod.mk.injEq, and_true] at hrounds
  obtain ⟨before, i, after, hiterations, -, -, -, hanswers⟩ :=
    (hcommands [first] second [] hsplit).1 hrounds.2.1
  -- the only iteration of the SoM is its first, so it returned nothing before
  have hbefore : before = [] := by
    rw [hiterations, List.length_append, List.length_cons] at hone
    exact List.eq_nil_of_length_eq_zero (by omega)
  have hoffset := hanswers.offset
  rw [hbefore] at hoffset
  cases hoffset

end Link

end RcPlane
