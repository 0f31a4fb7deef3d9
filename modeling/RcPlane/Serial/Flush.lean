import RcPlane.Serial.SerialController
import Mathlib.Algebra.Order.BigOperators.Group.List

/-!
# The flush

`async_read_until` looks for the terminator in the buffer, then reads whatever has arrived and
looks again, until the terminator is there; it may have read past it by then. It reports the
count up to and including the first occurrence, and the handler consumes twice that count. What
lies behind the terminator in the buffer is consumed with it, up to the length of what came
before.

## Main definitions

* `FirstOccurrence`: where the terminator first occurs
* `SerialController.readUntil`, `SerialController.flush`: the transfers and the call
* `SerialController.unread`: the bytes still to be read

## Main results

* `untilSize_eq_some_iff`: the search finds the first occurrence
* `flush_eq_true_iff`: a flush succeeds exactly when the first terminator arrives
* `flush_stops_iff`: a flush stops exactly at the terminator, exactly when a chunk ends with it
-/

namespace RcPlane

open Foundation

/-! ## The search -/

/-- The terminator occurs in `l` at `i`, and not before. -/
def FirstOccurrence (terminator l : List UInt8) (i : ℕ) : Prop :=
  terminator <+: l.drop i ∧ ∀ j < i, ¬ terminator <+: l.drop j

instance instDecidableFirstOccurrence (terminator l : List UInt8) (i : ℕ) :
    Decidable (FirstOccurrence terminator l i) :=
  inferInstanceAs (Decidable (terminator <+: l.drop i ∧ ∀ j < i, ¬ terminator <+: l.drop j))

theorem firstOccurrence_zero {terminator l : List UInt8} :
    FirstOccurrence terminator l 0 ↔ terminator <+: l := by
  simp [FirstOccurrence]

theorem firstOccurrence_cons_succ {terminator l : List UInt8} {b : UInt8} {i : ℕ} :
    FirstOccurrence terminator (b :: l) (i + 1) ↔
      ¬ terminator <+: b :: l ∧ FirstOccurrence terminator l i := by
  constructor
  · rintro ⟨hi, hfirst⟩
    exact ⟨hfirst 0 (by omega), hi, fun j hj => hfirst (j + 1) (by omega)⟩
  · rintro ⟨h0, hi, hfirst⟩
    refine ⟨hi, fun j hj => ?_⟩
    cases j with
    | zero => exact h0
    | succ j => exact hfirst j (by omega)

/-- An occurrence of the terminator that ends within `l` does not depend on what follows. -/
theorem prefix_drop_append_iff {terminator l : List UInt8} {j : ℕ}
    (h : j + terminator.length ≤ l.length) (r : List UInt8) :
    terminator <+: (l ++ r).drop j ↔ terminator <+: l.drop j := by
  rw [List.drop_append_of_le_length (by omega)]
  constructor
  · intro hp
    exact List.prefix_of_prefix_length_le hp (List.prefix_append _ r)
      (by rw [List.length_drop]; omega)
  · exact fun hp => hp.trans (List.prefix_append _ r)

theorem FirstOccurrence.end_le {terminator l : List UInt8} {i : ℕ} (hne : terminator ≠ [])
    (h : FirstOccurrence terminator l i) : i + terminator.length ≤ l.length := by
  have hlen := h.1.length_le
  have hpos := List.length_pos_iff.mpr hne
  rw [List.length_drop] at hlen
  omega

/-- What arrives behind the first occurrence does not move it. -/
theorem firstOccurrence_append_iff {terminator l : List UInt8} {i : ℕ}
    (h : i + terminator.length ≤ l.length) (r : List UInt8) :
    FirstOccurrence terminator (l ++ r) i ↔ FirstOccurrence terminator l i := by
  unfold FirstOccurrence
  rw [prefix_drop_append_iff h]
  refine and_congr_right fun _ => forall₂_congr fun j hj => ?_
  rw [prefix_drop_append_iff (by omega)]

theorem FirstOccurrence.unique {terminator l : List UInt8} {i j : ℕ}
    (hi : FirstOccurrence terminator l i) (hj : FirstOccurrence terminator l j) : i = j := by
  rcases Nat.lt_trichotomy i j with h | h | h
  · exact absurd hi.1 (hj.2 i h)
  · exact h
  · exact absurd hj.1 (hi.2 j h)

namespace SerialController

/-- The search reports the count up to and including the first occurrence. -/
theorem untilSize_eq_some_iff {terminator : List UInt8} (hne : terminator ≠ []) {l : List UInt8}
    {n : ℕ} :
    untilSize terminator l = some n ↔
      ∃ i, FirstOccurrence terminator l i ∧ n = i + terminator.length := by
  induction l generalizing n with
  | nil =>
    simp only [untilSize, if_neg hne, reduceCtorEq, false_iff]
    rintro ⟨i, h, -⟩
    exact hne (by simpa using h.1)
  | cons b l ih =>
    unfold untilSize
    by_cases hp : terminator <+: b :: l
    · rw [if_pos hp, Option.some.injEq]
      constructor
      · rintro rfl
        exact ⟨0, firstOccurrence_zero.mpr hp, (Nat.zero_add _).symm⟩
      · rintro ⟨i, hi, rfl⟩
        rw [hi.unique (firstOccurrence_zero.mpr hp), Nat.zero_add]
    · rw [if_neg hp, Option.map_eq_some_iff]
      constructor
      · rintro ⟨n, hn, rfl⟩
        obtain ⟨i, hi, rfl⟩ := ih.mp hn
        exact ⟨i + 1, firstOccurrence_cons_succ.mpr ⟨hp, hi⟩, by omega⟩
      · rintro ⟨i, hi, rfl⟩
        cases i with
        | zero => exact absurd (firstOccurrence_zero.mp hi) hp
        | succ i =>
          exact ⟨i + terminator.length,
            ih.mpr ⟨i, (firstOccurrence_cons_succ.mp hi).2, rfl⟩, by omega⟩

/-- A search finds the terminator once all of its first occurrence is there. -/
theorem untilSize_of_append {terminator : List UInt8} (hne : terminator ≠ []) {l r : List UInt8}
    {i : ℕ} (hi : FirstOccurrence terminator (l ++ r) i) :
    untilSize terminator l =
      if i + terminator.length ≤ l.length then some (i + terminator.length) else none := by
  split_ifs with hle
  · exact (untilSize_eq_some_iff hne).mpr ⟨i, (firstOccurrence_append_iff hle r).mp hi, rfl⟩
  · rw [Option.eq_none_iff_forall_ne_some]
    intro n hn
    obtain ⟨j, hj, rfl⟩ := (untilSize_eq_some_iff hne).mp hn
    have hend := hj.end_le hne
    -- an occurrence within `l` would be the first one of the whole
    rw [hi.unique ((firstOccurrence_append_iff hend r).mpr hj)] at hle
    exact hle hend

/-! ## The call -/

/-- The transfers of `async_read_until`, each of a chunk of the given size, or less where the port
has less: what the last search reported, the buffer and what is left of the port. -/
def readUntil (terminator : List UInt8) :
    List ℕ → SerialController → List UInt8 → Option ℕ × SerialController × List UInt8
  | [], s, port => (untilSize terminator s.streamBuffer, s, port)
  | chunk :: chunks, s, port =>
    match untilSize terminator s.streamBuffer with
    | some size => (some size, s, port)
    | none => readUntil terminator chunks (s.append (port.take chunk)) (port.drop chunk)

/-- One call of `flush`, given the sizes of the chunks that arrive before the timeout. -/
def flush (terminator : List UInt8) (chunks : List ℕ) (s : SerialController)
    (port : List UInt8) : Bool × SerialController × List UInt8 :=
  match readUntil terminator chunks s port with
  | (some size, s', port') => (true, completeFlush size s', port')
  | (none, s', port') => (false, s', port')

/-- The bytes still to be read: the buffer, then what is undelivered. -/
def unread (r : Bool × SerialController × List UInt8) : List UInt8 := r.2.1.streamBuffer ++ r.2.2

/-- What the buffer holds after the first `k` chunks. -/
def received (chunks : List ℕ) (s : SerialController) (port : List UInt8) (k : ℕ) :
    List UInt8 :=
  s.streamBuffer ++ port.take (chunks.take k).sum

theorem received_succ (chunk : ℕ) (chunks : List ℕ) (s : SerialController) (port : List UInt8)
    (k : ℕ) :
    received (chunk :: chunks) s port (k + 1) =
      received chunks (s.append (port.take chunk)) (port.drop chunk) k := by
  rw [received, received, List.take_succ_cons, List.sum_cons, List.take_add,
    streamBuffer_append, List.append_assoc]

theorem received_append_drop (chunks : List ℕ) (s : SerialController) (port : List UInt8)
    (k : ℕ) :
    received chunks s port k ++ port.drop (chunks.take k).sum = s.streamBuffer ++ port := by
  rw [received, List.append_assoc, List.take_append_drop]

theorem length_received_mono (chunks : List ℕ) (s : SerialController) (port : List UInt8)
    {k l : ℕ} (h : k ≤ l) :
    (received chunks s port k).length ≤ (received chunks s port l).length := by
  have hsum : (chunks.take k).sum ≤ (chunks.take l).sum := List.monotone_sum_take chunks h
  simp only [received, List.length_append, List.length_take]
  omega

/-- The transfers stop after the first chunk with which the terminator is there, or the last. -/
theorem readUntil_eq (terminator : List UInt8) (chunks : List ℕ) (s : SerialController)
    (port : List UInt8) :
    ∃ k, readUntil terminator chunks s port =
        (untilSize terminator (received chunks s port k),
          { s with streamBuffer := received chunks s port k },
          port.drop (chunks.take k).sum) ∧
      (∀ l < k, untilSize terminator (received chunks s port l) = none) ∧
      (untilSize terminator (received chunks s port k) = none → k = chunks.length) := by
  induction chunks generalizing s port with
  | nil => exact ⟨0, by simp [readUntil, received], by simp, fun _ => rfl⟩
  | cons chunk chunks ih =>
    have hzero : received (chunk :: chunks) s port 0 = s.streamBuffer := by simp [received]
    cases hfound : untilSize terminator s.streamBuffer with
    | some size =>
      -- nothing is read when the buffer holds the terminator already
      refine ⟨0, ?_, by simp, ?_⟩
      · rw [readUntil, hfound, hzero, hfound]
        simp
      · rw [hzero, hfound]
        simp
    | none =>
      -- the first chunk counts as buffered for the rest
      obtain ⟨k, heq, hbefore, hlast⟩ := ih (s.append (port.take chunk)) (port.drop chunk)
      refine ⟨k + 1, ?_, ?_, ?_⟩
      · rw [readUntil, hfound, received_succ, List.take_succ_cons, List.sum_cons,
          ← List.drop_drop]
        exact heq
      · intro l hl
        cases l with
        | zero => rw [hzero, hfound]
        | succ l =>
          rw [received_succ]
          exact hbefore l (by omega)
      · rw [received_succ, List.length_cons]
        exact fun h => congrArg (· + 1) (hlast h)

section Flush

variable {terminator : List UInt8} {chunks : List ℕ} {s : SerialController} {port : List UInt8}
  {i : ℕ}

/-- What each search reports. -/
theorem untilSize_received (hne : terminator ≠ [])
    (hi : FirstOccurrence terminator (s.streamBuffer ++ port) i) (k : ℕ) :
    untilSize terminator (received chunks s port k) =
      if i + terminator.length ≤ (received chunks s port k).length
        then some (i + terminator.length) else none := by
  refine untilSize_of_append hne (r := port.drop (chunks.take k).sum) ?_
  rwa [received_append_drop]

/-- A flush succeeds exactly when all of the first terminator arrives before the timeout. -/
theorem flush_eq_true_iff (hne : terminator ≠ [])
    (hi : FirstOccurrence terminator (s.streamBuffer ++ port) i) :
    (flush terminator chunks s port).1 = true ↔
      i + terminator.length ≤ (received chunks s port chunks.length).length := by
  obtain ⟨k, heq, -, hlast⟩ := readUntil_eq terminator chunks s port
  rw [flush, heq]
  rw [untilSize_received hne hi] at hlast ⊢
  split_ifs with hle
  · -- found after `k` chunks, and so after all of them
    refine iff_of_true rfl (hle.trans ?_)
    rcases le_total k chunks.length with hk | hk
    · exact length_received_mono chunks s port hk
    · rw [received, received, List.take_length, List.take_of_length_le hk]
  · rw [if_neg hle] at hlast
    rw [← hlast rfl]
    exact iff_of_false (by simp) hle

/-- A flush that succeeds leaves what it received less twice the length up to the terminator, then
what it did not receive. -/
theorem unread_flush (hne : terminator ≠ [])
    (hi : FirstOccurrence terminator (s.streamBuffer ++ port) i)
    (hflush : (flush terminator chunks s port).1 = true) :
    ∃ k, i + terminator.length ≤ (received chunks s port k).length ∧
      (∀ l < k, (received chunks s port l).length < i + terminator.length) ∧
      unread (flush terminator chunks s port) =
        (received chunks s port k).drop ((i + terminator.length) * 2) ++
          port.drop (chunks.take k).sum := by
  obtain ⟨k, heq, hbefore, -⟩ := readUntil_eq terminator chunks s port
  rw [flush, heq, untilSize_received hne hi] at hflush ⊢
  split_ifs at hflush ⊢ with hle
  refine ⟨k, hle, fun l hl => ?_, rfl⟩
  have hnone := hbefore l hl
  rw [untilSize_received hne hi] at hnone
  split_ifs at hnone with hlt
  omega

/-- No byte up to the end of the terminator survives a flush. -/
theorem unread_flush_suffix (hne : terminator ≠ [])
    (hi : FirstOccurrence terminator (s.streamBuffer ++ port) i)
    (hflush : (flush terminator chunks s port).1 = true) :
    unread (flush terminator chunks s port) <:+
      (s.streamBuffer ++ port).drop (i + terminator.length) := by
  obtain ⟨k, hle, -, heq⟩ := unread_flush hne hi hflush
  rw [heq, ← received_append_drop chunks s port k, List.drop_append_of_le_length hle, mul_two,
    ← List.drop_drop]
  exact List.suffix_append_self_iff.mpr (List.drop_suffix _ _)

/-- **A flush stops at the terminator exactly when a chunk ends with it.** What is still to be read
is what follows the first occurrence of the terminator, if and only if the initial buffer or one
of the chunks that arrive ends where that occurrence ends; whatever was read past it is lost. -/
theorem flush_stops_iff (hne : terminator ≠ [])
    (hi : FirstOccurrence terminator (s.streamBuffer ++ port) i)
    (hflush : (flush terminator chunks s port).1 = true) :
    unread (flush terminator chunks s port) =
        (s.streamBuffer ++ port).drop (i + terminator.length) ↔
      ∃ k, (received chunks s port k).length = i + terminator.length := by
  obtain ⟨k, hle, hbefore, heq⟩ := unread_flush hne hi hflush
  have hpos := List.length_pos_iff.mpr hne
  rw [heq, ← received_append_drop chunks s port k, List.drop_append_of_le_length hle]
  constructor
  · intro h
    -- both sides drop from the same bytes, so they drop equally many
    have hlen := congrArg List.length h
    simp only [List.length_append, List.length_drop] at hlen
    exact ⟨k, by omega⟩
  · rintro ⟨l, hl⟩
    have hkl : k ≤ l := by
      by_contra hlt
      exact absurd (hbefore l (by omega)) (by omega)
    have hk : (received chunks s port k).length = i + terminator.length :=
      le_antisymm ((length_received_mono chunks s port hkl).trans hl.le) hle
    -- nothing was read past the terminator, so there is nothing to lose
    have hend : (received chunks s port k).drop (i + terminator.length) = [] :=
      List.drop_eq_nil_of_le hk.le
    have htwice : (received chunks s port k).drop ((i + terminator.length) * 2) = [] :=
      List.drop_eq_nil_of_le (by omega)
    rw [hend, htwice]

/-- The terminator of the shipped configuration behind one stale byte, in two chunks of which the
second ends with it; a byte that follows is kept. -/
theorem flush_stops_iff_shipped :
    unread (flush [102, 108, 117, 115, 104, 13, 10] [3, 4] { streamBuffer := [0] }
      [102, 108, 117, 115, 104, 13, 10, 1]) = [1] :=
  (flush_stops_iff (i := 1) (by decide) (by decide) (by decide)).mpr ⟨2, by decide⟩

/-- A byte that arrives in one chunk with the terminator is lost. -/
theorem flush_overruns :
    ¬ ∀ (terminator : List UInt8) (chunks : List ℕ) (s : SerialController) (port : List UInt8)
        (i : ℕ), terminator ≠ [] → FirstOccurrence terminator (s.streamBuffer ++ port) i →
      (flush terminator chunks s port).1 = true →
        unread (flush terminator chunks s port) =
          (s.streamBuffer ++ port).drop (i + terminator.length) := by
  intro h
  have := h [102, 108, 117, 115, 104, 13, 10] [8] {} [102, 108, 117, 115, 104, 13, 10, 1] 0
    (by decide) (firstOccurrence_zero.mpr (by decide)) (by decide)
  revert this
  decide

end Flush

end SerialController

end RcPlane
