import Mathlib.Data.Int.ModEq
import RcPlane.Link.Link

/-!
# Packet integrity under timeouts

The reads of the main loop alternate between the two packet types, and every read that completes
takes its number of bytes off one unframed stream. A read is therefore whole exactly when the
bytes returned before it end where the microcontroller began such a packet, and that depends on
the timeouts before it alone: each leaves its 9 or 28 bytes to the reads after it, and the two
amounts only cancel modulo the 37 bytes of an iteration.

## Main definitions

* `timeouts`: the timed-out reads of a type
* `Whole`: a read returned one packet of the loop, from where the loop wrote it
* `Balanced`: as many timed-out reads of either type, modulo 37, before every read that completes

## Main results

* `Link.whole_iff`: one read
* `Link.integrity_iff_balanced`: a run
-/

namespace RcPlane

open Foundation SerialController

/-! ## Alternating reads -/

/-- The type of the `n`-th read of the main loop. -/
def readType (n : ℕ) : PacketType := if n % 2 = 0 then .rcRx else .imu

theorem readType_of_even {n : ℕ} (h : n % 2 = 0) : readType n = .rcRx := if_pos h

theorem readType_of_odd {n : ℕ} (h : n % 2 = 1) : readType n = .imu := if_neg (by omega)

/-- The reads are those of the main loop, in order. -/
def Alternating (reads : List Read) : Prop :=
  ∀ pre r post, reads = pre ++ r :: post → r.1 = readType pre.length

/-- The number of reads of a type that timed out. -/
def timeouts (t : PacketType) (reads : List Read) : ℕ :=
  reads.countP fun r => r.1 = t ∧ r.2.didTimeout

theorem alternating_nil : Alternating [] := by
  intro pre r post h
  simp at h

theorem alternating_snoc {reads : List Read} (h : Alternating reads) {r : Read}
    (hr : r.1 = readType reads.length) : Alternating (reads ++ [r]) := by
  intro pre x post hsplit
  rcases List.eq_nil_or_concat post with rfl | ⟨post, y, rfl⟩
  · obtain ⟨rfl, hx⟩ := List.append_inj' hsplit rfl
    obtain rfl := List.singleton_inj.mp hx
    exact hr
  · rw [List.concat_eq_append, ← List.cons_append, ← List.append_assoc] at hsplit
    exact h pre x post (List.append_inj_left' hsplit rfl)

theorem Alternating.left {reads : List Read} {pre post : List Read} (h : Alternating reads)
    (hreads : reads = pre ++ post) : Alternating pre := by
  intro pre' r post' hpre
  apply h pre' r (post' ++ post)
  rw [hreads, hpre, List.append_assoc, List.cons_append]

/-- Two reads for every iteration that is over. -/
theorem length_flatMap_reads (iterations : List Iteration) :
    (iterations.flatMap Iteration.reads).length = 2 * iterations.length := by
  induction iterations with
  | nil => rfl
  | cons i iterations ih =>
    rw [List.flatMap_cons, List.length_append, ih, List.length_cons]
    show 2 + _ = _
    ring

theorem alternating_flatMap_reads (iterations : List Iteration) :
    Alternating (iterations.flatMap Iteration.reads) := by
  induction iterations using List.reverseRecOn with
  | nil => exact alternating_nil
  | append_singleton iterations i ih =>
    have hlen := length_flatMap_reads iterations
    have hfirst : Alternating (iterations.flatMap Iteration.reads ++ [⟨.rcRx, i.rcRx⟩]) := by
      refine alternating_snoc ih (readType_of_even ?_).symm
      omega
    have hsecond := alternating_snoc (r := ⟨.imu, i.imu⟩) hfirst (by
      refine (readType_of_odd ?_).symm
      rw [List.length_append, List.length_singleton]
      omega)
    rw [List.append_assoc] at hsecond
    rw [List.flatMap_append, List.flatMap_singleton]
    exact hsecond

theorem alternating_reads {D : Type} (s : Som D) : Alternating s.reads := by
  have halt := alternating_flatMap_reads s.iterations
  have hlen := length_flatMap_reads s.iterations
  unfold Som.reads Som.taken
  split
  · refine alternating_snoc halt (readType_of_even ?_).symm
    omega
  · rw [List.append_nil]
    exact halt

/-! ## Offsets -/

theorem length_bytes {t : PacketType} (r : ReadResult t) :
    r.bytes.length = if r.didTimeout then 0 else t.codec.size := by
  unfold ReadResult.bytes
  split_ifs
  · rfl
  · exact t.codec.length_encode _

theorem timeouts_snoc (t : PacketType) (reads : List Read) (r : Read) :
    timeouts t (reads ++ [r]) =
      timeouts t reads + if r.1 = t ∧ r.2.didTimeout then 1 else 0 := by
  rw [timeouts, List.countP_append, List.countP_singleton]
  simp only [decide_eq_true_eq]
  rfl

/-- The bytes returned, and those left behind by the timeouts, are the packets of the reads. -/
theorem length_returnedBytes {reads : List Read} (h : Alternating reads) :
    (returnedBytes reads).length + 9 * timeouts .rcRx reads + 28 * timeouts .imu reads =
      37 * (reads.length / 2) + 9 * (reads.length % 2) := by
  induction reads using List.reverseRecOn with
  | nil => rfl
  | append_singleton reads r ih =>
    have hreads := ih (h.left rfl)
    have hr : r.1 = readType reads.length := h reads r [] rfl
    obtain ⟨t, result⟩ := r
    rw [Som.returnedBytes_snoc, List.length_append, timeouts_snoc, timeouts_snoc, length_bytes,
      List.length_append, List.length_singleton]
    -- the type of the last read follows the parity, and its bytes or its timeout its outcome
    rcases Nat.mod_two_eq_zero_or_one reads.length with hpar | hpar
    · obtain rfl : t = .rcRx := hr.trans (readType_of_even hpar)
      cases hto : result.didTimeout with
      | false =>
        simp [PacketType.codec]
        omega
      | true =>
        simp
        omega
    · obtain rfl : t = .imu := hr.trans (readType_of_odd hpar)
      cases hto : result.didTimeout with
      | false =>
        simp [PacketType.codec]
        omega
      | true =>
        simp
        omega

/-! ## Whole packets -/

/-- If it did not time out, the read returned one packet of the `n + 1` iterations of the loop,
from where the loop wrote it. -/
def Whole (samples : Samples) (n : ℕ) (before : List Read) : Read → Prop
  | ⟨.rcRx, r⟩ => r.didTimeout = false →
    ∃ k ≤ n, (returnedBytes before).length = 37 * k ∧ r.packet = (samples k).1
  | ⟨.imu, r⟩ => r.didTimeout = false →
    ∃ k ≤ n, (returnedBytes before).length = 37 * k + 9 ∧ r.packet = (samples k).2
  | _ => True

/-- Every read of the list is whole. -/
def Integrity (samples : Samples) (n : ℕ) (reads : List Read) : Prop :=
  ∀ pre r post, reads = pre ++ r :: post → Whole samples n pre r

/-- Before every read that completes, as many reads of either type timed out, modulo 37. -/
def Balanced (reads : List Read) : Prop :=
  ∀ pre r post, reads = pre ++ r :: post → r.2.didTimeout = false →
    timeouts .rcRx pre ≡ timeouts .imu pre [MOD 37]

theorem balanced_iff {reads : List Read} : Balanced reads ↔
    ∀ n (hn : n < reads.length), reads[n].2.didTimeout = false →
      timeouts .rcRx (reads.take n) ≡ timeouts .imu (reads.take n) [MOD 37] := by
  constructor
  · intro h n hn hcompleted
    refine h _ reads[n] (reads.drop (n + 1)) ?_ hcompleted
    rw [List.getElem_cons_drop, List.take_append_drop]
  · rintro h pre r post rfl hcompleted
    have hn : pre.length < (pre ++ r :: post).length := by simp
    have hlast : (pre ++ r :: post)[pre.length] = r := List.getElem_of_append rfl rfl
    have hmod := h pre.length hn (by rw [hlast]; exact hcompleted)
    rwa [List.take_left] at hmod

instance (reads : List Read) : Decidable (Balanced reads) := decidable_of_iff' _ balanced_iff

/-- The bytes returned before a read and those of the read are a prefix of the loop's. -/
theorem returnedBytes_split {samples : Samples} {n : ℕ} {reads pre post : List Read} {r : Read}
    (h : returnedBytes reads <+: loopBytes samples n) (hreads : reads = pre ++ r :: post) :
    returnedBytes pre ++ (r.2.bytes ++ returnedBytes post) <+: loopBytes samples n := by
  rw [hreads, returnedBytes, List.flatMap_append, List.flatMap_cons] at h
  exact h

theorem getElem?_samples {samples : Samples} {n k : ℕ} {p : RcRxPacket × ImuPacket}
    (h : ((List.range n).map samples)[k]? = some p) : k < n ∧ samples k = p := by
  rw [List.getElem?_map, Option.map_eq_some_iff] at h
  obtain ⟨j, hj, rfl⟩ := h
  obtain ⟨hlt, hj⟩ := List.getElem?_eq_some_iff.mp hj
  rw [List.getElem_range] at hj
  rw [List.length_range] at hlt
  exact ⟨hlt, by rw [hj]⟩

/-- **One read.** A read that completes is whole exactly when the timeouts before it balance. -/
theorem whole_iff {samples : Samples} {n : ℕ} {reads pre post : List Read} {r : Read}
    (halt : Alternating reads) (h : returnedBytes reads <+: loopBytes samples (n + 1))
    (hreads : reads = pre ++ r :: post) :
    Whole samples n pre r ↔
      (r.2.didTimeout = false → timeouts .rcRx pre ≡ timeouts .imu pre [MOD 37]) := by
  have hlen := length_returnedBytes (halt.left hreads)
  have hr : r.1 = readType pre.length := halt pre r post hreads
  have hsplit := returnedBytes_split h hreads
  obtain ⟨t, result⟩ := r
  unfold Nat.ModEq
  rcases Nat.mod_two_eq_zero_or_one pre.length with hpar | hpar
  · -- the first read of an iteration: the offset is `37 * k` exactly when the timeouts balance
    obtain rfl : t = .rcRx := hr.trans (readType_of_even hpar)
    constructor
    · intro hwhole hto
      obtain ⟨k, -, hk, -⟩ := hwhole hto
      omega
    · intro hbalanced hto
      have hmod := hbalanced hto
      have hk : (returnedBytes pre).length = 37 * ((returnedBytes pre).length / 37) := by omega
      rw [ReadResult.bytes_of_completed hto] at hsplit
      obtain ⟨imu, hsample⟩ := Codec.getElem?_fst_of_aligned (by decide) hsplit hk
      obtain ⟨hlt, hsample⟩ := getElem?_samples hsample
      exact ⟨_, Nat.lt_succ_iff.mp hlt, hk, by rw [hsample]⟩
  · -- the second read of an iteration: the offset is `37 * k + 9`
    obtain rfl : t = .imu := hr.trans (readType_of_odd hpar)
    constructor
    · intro hwhole hto
      obtain ⟨k, -, hk, -⟩ := hwhole hto
      omega
    · intro hbalanced hto
      have hmod := hbalanced hto
      have hk : (returnedBytes pre).length = 37 * ((returnedBytes pre).length / 37) + 9 := by
        omega
      rw [ReadResult.bytes_of_completed hto] at hsplit
      obtain ⟨rc, hsample⟩ := Codec.getElem?_snd_of_aligned (by decide) hsplit hk
      obtain ⟨hlt, hsample⟩ := getElem?_samples hsample
      exact ⟨_, Nat.lt_succ_iff.mp hlt, hk, by rw [hsample]⟩

/-- The reads of an iteration follow those of the iterations before it. -/
theorem reads_split {D : Type} {s : Som D} {k : ℕ} (hk : k < s.iterations.length) :
    ∃ rest, s.reads = (s.iterations.take k).flatMap Iteration.reads ++
      ⟨.rcRx, s.iterations[k].rcRx⟩ :: ⟨.imu, s.iterations[k].imu⟩ :: rest := by
  refine ⟨(s.iterations.drop (k + 1)).flatMap Iteration.reads ++ s.taken, ?_⟩
  conv_lhs => rw [Som.reads, ← List.take_append_drop k s.iterations]
  rw [List.drop_eq_getElem_cons hk, List.flatMap_append, List.flatMap_cons, List.append_assoc,
    List.append_assoc]
  rfl

/-! ## Runs -/

namespace Link

variable {D : Type} [Double D] {samples : Samples} {c : SomConfig D} {debugMessage : DebugMessage}
  {acts : List Action} {t : Link D}

/-- **Packet integrity.** In every run from an aligned start, whatever times out, the completed
reads return whole packets exactly when the timeouts before each of them balance. -/
theorem integrity_iff_balanced
    (h : run (step samples c) (aligned samples debugMessage) acts = some t) :
    Integrity samples t.mcu.rounds.length t.som.reads ↔ Balanced t.som.reads := by
  have halt := alternating_reads t.som
  have hbytes := (looping_of_run h).consumed
  constructor
  · intro hintegrity pre r post hreads
    exact (whole_iff halt hbytes hreads).mp (hintegrity pre r post hreads)
  · intro hbalanced pre r post hreads
    exact (whole_iff halt hbytes hreads).mpr (hbalanced pre r post hreads)

theorem timeouts_eq_zero {reads : List Read} (h : ∀ r ∈ reads, r.2.didTimeout = false)
    (type : PacketType) : timeouts type reads = 0 := by
  apply List.countP_eq_zero.mpr
  intro r hr
  simp [h r hr]

/-- If no read timed out up to the SoM's `k`-th iteration, it begins after `k` whole iterations of
the loop and uses the packets of the loop's `k`-th. -/
theorem sample_of_iteration (h : t.Looping samples c) {k : ℕ} (hk : k < t.som.iterations.length)
    (hprompt : ∀ i ∈ t.som.iterations.take (k + 1),
      i.rcRx.didTimeout = false ∧ i.imu.didTimeout = false) :
    (returnedBytes ((t.som.iterations.take k).flatMap Iteration.reads)).length = 37 * k ∧
      (t.som.iterations[k].rcRx.packet, t.som.iterations[k].imu.packet) = samples k := by
  have halt := alternating_reads t.som
  obtain ⟨rest, hsplit⟩ := reads_split hk
  have hnone : ∀ type, timeouts type ((t.som.iterations.take k).flatMap Iteration.reads) = 0 := by
    apply timeouts_eq_zero
    intro r hr
    obtain ⟨i, hi, hr⟩ := List.mem_flatMap.mp hr
    obtain ⟨hrcRx, himu⟩ := hprompt i (List.take_subset_take_left _ (Nat.le_succ k) hi)
    simp only [Iteration.reads, List.mem_cons, List.not_mem_nil, or_false] at hr
    rcases hr with rfl | rfl
    · exact hrcRx
    · exact himu
  obtain ⟨hrcRx, himu⟩ := hprompt t.som.iterations[k]
    (List.mem_take_iff_getElem.mpr ⟨k, by omega, rfl⟩)
  -- the first read begins after `k` whole iterations, so it is the loop's `k`-th packet
  have hlen := length_returnedBytes (halt.left hsplit)
  rw [hnone, hnone, length_flatMap_reads, List.length_take, min_eq_left hk.le] at hlen
  obtain ⟨k₁, -, hk₁, hfst⟩ := (whole_iff halt h.consumed hsplit).mpr
    (fun _ => by rw [hnone, hnone]) hrcRx
  obtain rfl : k = k₁ := by omega
  -- and the second read begins where the first one ended
  have hsplit' := hsplit
  rw [List.append_cons] at hsplit'
  have hlen' := length_returnedBytes (halt.left hsplit')
  have hbalanced : ∀ type, timeouts type ((t.som.iterations.take k).flatMap Iteration.reads ++
      [⟨.rcRx, t.som.iterations[k].rcRx⟩]) = 0 := by
    intro type
    rw [timeouts_snoc, hnone, hrcRx]
    simp
  rw [hbalanced, hbalanced, List.length_append, length_flatMap_reads, List.length_take,
    min_eq_left hk.le, List.length_singleton] at hlen'
  obtain ⟨k₂, -, hk₂, hsnd⟩ := (whole_iff halt h.consumed hsplit').mpr
    (fun _ => by rw [hbalanced, hbalanced]) himu
  obtain rfl : k = k₂ := by omega
  exact ⟨hk₁, Prod.ext hfst hsnd⟩

/-- Both reads of the first iteration time out, and the first one of the second completes, in two
pieces. -/
def bothTimeOut : List Action :=
  [.somTimeout .read, .somTimeout .read] ++ List.replicate 4 .somSend ++ [.somDone] ++ loopWrites ++
    List.replicate 37 .deliverToSom ++ [.somReceive 4, .somReceive 5, .somDone]

theorem integrity_bothTimeOut :
    ∃ t, run (step (Samples.steady { timestamp := 7 } {}) .level)
        (aligned (Samples.steady { timestamp := 7 } {}) {}) bothTimeOut = some t ∧
      t.som.reads.map (fun r => r.2.didTimeout) = [true, true, false] ∧ Balanced t.som.reads ∧
      Integrity (Samples.steady { timestamp := 7 } {}) t.mcu.rounds.length t.som.reads := by
  have hany : (run (step (Samples.steady { timestamp := 7 } {}) .level)
      (aligned (Samples.steady { timestamp := 7 } {}) {}) bothTimeOut).any (fun t =>
        decide (t.som.reads.map (fun r => r.2.didTimeout) = [true, true, false] ∧
          Balanced t.som.reads)) := by
    decide +kernel
  obtain ⟨t, ht, hreads⟩ := (Option.any_eq_true _ _).mp hany
  obtain ⟨htimeouts, hbalanced⟩ := of_decide_eq_true hreads
  exact ⟨t, ht, htimeouts, hbalanced, (integrity_iff_balanced ht).mpr hbalanced⟩

/-- The first read times out before anything arrives. The second one then takes the bytes of the
RcRxPacket for the first nine of its own, and returns a packet that was never written. -/
theorem integrity_broken :
    ∃ t, run (step (Samples.steady { timestamp := 7 } {}) .level)
        (aligned (Samples.steady { timestamp := 7 } {}) {})
        ([Action.somTimeout .read] ++ loopWrites ++ List.replicate 28 Action.deliverToSom ++
          [.somReceive 28, .somDone]) = some t ∧
      ¬ Integrity (Samples.steady { timestamp := 7 } {}) t.mcu.rounds.length t.som.reads ∧
      ∃ i ∈ t.som.iterations, i.rcRx.didTimeout = true ∧ i.imu.didTimeout = false ∧
        ∀ k, i.imu.packet ≠ (Samples.steady { timestamp := 7 } {} k).2 := by
  have hany : (run (step (Samples.steady { timestamp := 7 } {}) .level)
      (aligned (Samples.steady { timestamp := 7 } {}) {})
      ([Action.somTimeout .read] ++ loopWrites ++ List.replicate 28 Action.deliverToSom ++
        [.somReceive 28, .somDone])).any (fun t =>
      t.som.iterations.any fun i =>
        i.rcRx.didTimeout && !i.imu.didTimeout && decide (i.imu.packet ≠ {})) := by
    decide +kernel
  obtain ⟨t, ht, hi⟩ := (Option.any_eq_true _ _).mp hany
  obtain ⟨i, hmem, hi⟩ := List.any_eq_true.mp hi
  simp only [Bool.and_eq_true, Bool.not_eq_true', decide_eq_true_eq] at hi
  obtain ⟨⟨hrcRx, himu⟩, hpacket⟩ := hi
  refine ⟨t, ht, ?_, i, hmem, hrcRx, himu, fun _ => hpacket⟩
  -- its second read completed, on a packet that is not one of the loop's
  intro hintegrity
  have hread : ⟨.imu, i.imu⟩ ∈ t.som.reads := by
    apply List.mem_append_left
    exact List.mem_flatMap.mpr ⟨i, hmem, by simp [Iteration.reads]⟩
  obtain ⟨pre, post, hreads⟩ := List.append_of_mem hread
  obtain ⟨k, -, -, hk⟩ := hintegrity pre _ post hreads himu
  exact hpacket hk

end Link

end RcPlane
