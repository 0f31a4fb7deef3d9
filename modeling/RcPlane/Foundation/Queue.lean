import Mathlib.Data.List.Sort

/-!
# Bounded queues

A first-in first-out queue that refuses an item when it is full, and the order of what passes
through it: in a strictly increasing list, what comes no later than some entry is a prefix.

## Main definitions

* `BoundedQueue capacity α`: at most `capacity` items, oldest first
* `BoundedQueue.trySend`, `BoundedQueue.receive`: add an item unless full, take the oldest

## Main results

* `BoundedQueue.trySend_eq_some`, `BoundedQueue.receive_eq_some`: what the operations do
* `prefix_eq_iff_mem_iff`: two increasing lists have a prefix in common exactly when they have the
  same entries up to its last
-/

namespace Foundation

/-- A queue of at most `capacity` items, oldest first. -/
structure BoundedQueue (capacity : ℕ) (α : Type*) where
  items : List α
  bounded : items.length ≤ capacity

namespace BoundedQueue

variable {capacity : ℕ} {α : Type*}

/-- The queue without items. -/
def empty : BoundedQueue capacity α := ⟨[], Nat.zero_le _⟩

/-- Add an item, unless the queue is full. -/
def trySend (q : BoundedQueue capacity α) (a : α) : Option (BoundedQueue capacity α) :=
  if h : q.items.length < capacity then
    some ⟨q.items ++ [a], by rw [List.length_append, List.length_singleton]; exact h⟩
  else none

/-- Take the oldest item. -/
def receive : BoundedQueue capacity α → Option (α × BoundedQueue capacity α)
  | ⟨[], _⟩ => none
  | ⟨a :: rest, h⟩ => some (a, ⟨rest, (Nat.le_succ _).trans h⟩)

theorem trySend_of_lt {q : BoundedQueue capacity α} {a : α} (h : q.items.length < capacity) :
    ∃ q', q.trySend a = some q' :=
  ⟨_, dif_pos h⟩

theorem trySend_of_not_lt {q : BoundedQueue capacity α} {a : α}
    (h : ¬ q.items.length < capacity) : q.trySend a = none :=
  dif_neg h

theorem trySend_eq_some {q q' : BoundedQueue capacity α} {a : α} (h : q.trySend a = some q') :
    q'.items = q.items ++ [a] := by
  unfold trySend at h
  split_ifs at h
  cases h
  rfl

theorem receive_eq_some {q q' : BoundedQueue capacity α} {a : α}
    (h : q.receive = some (a, q')) : q.items = a :: q'.items := by
  obtain ⟨items, hbounded⟩ := q
  cases items with
  | nil => cases h
  | cons b rest =>
    cases h
    rfl

end BoundedQueue

/-! ## Increasing lists -/

section Increasing

variable {α : Type*} [LinearOrder α]

/-- The entries of an increasing list up to a bound are a prefix of it. -/
theorem prefix_of_filter_le {l : List α} (hl : l.SortedLT) (a : α) :
    l.filter (· ≤ a) <+: l := by
  rw [List.sortedLT_iff_pairwise] at hl
  induction l with
  | nil => exact List.prefix_rfl
  | cons x l ih =>
    obtain ⟨hx, hl⟩ := List.pairwise_cons.mp hl
    by_cases hxa : x ≤ a
    · rw [List.filter_cons_of_pos (by simpa using hxa)]
      exact List.cons_prefix_cons.mpr ⟨rfl, ih hl⟩
    · -- all further entries are past the bound too
      have hnone : (x :: l).filter (· ≤ a) = [] := by
        rw [List.filter_eq_nil_iff]
        intro y hy
        rcases List.mem_cons.mp hy with rfl | hy
        · simpa using hxa
        · simpa using (not_le.mp hxa).trans (hx y hy)
      rw [hnone]
      exact List.nil_prefix

/-- What an increasing list has up to one of its entries comes before it. -/
theorem mem_iff_of_le_last {xs rest : List α} {last a : α}
    (h : (xs ++ [last] ++ rest).SortedLT) (ha : a ≤ last) :
    a ∈ xs ++ [last] ++ rest ↔ a ∈ xs ++ [last] := by
  refine ⟨fun hmem => ?_, fun hmem => List.mem_append_left _ hmem⟩
  rcases List.mem_append.mp hmem with hmem | hmem
  · exact hmem
  · have hpairwise := List.sortedLT_iff_pairwise.mp h
    have hlt := (List.pairwise_append.mp hpairwise).2.2 last (by simp) a hmem
    exact absurd ha (not_le.mpr hlt)

/-- Two increasing lists have a prefix in common exactly when they have the same entries up to the
last one of the prefix. -/
theorem prefix_eq_iff_mem_iff {xs rest ys rest' : List α} {last : α}
    (hx : (xs ++ [last] ++ rest).SortedLT) (hy : (ys ++ rest').SortedLT)
    (hlength : ys.length = (xs ++ [last]).length) :
    xs ++ [last] = ys ↔ ∀ a ≤ last, a ∈ xs ++ [last] ++ rest ↔ a ∈ ys ++ rest' := by
  constructor
  · rintro rfl a ha
    rw [mem_iff_of_le_last hx ha, mem_iff_of_le_last hy ha]
  · intro h
    have hprefix := List.sortedLT_iff_pairwise.mp hx
    have hle : ∀ a ∈ xs ++ [last], a ≤ last := by
      intro a ha
      rcases List.mem_append.mp ha with ha | ha
      · have hxs := (List.pairwise_append.mp hprefix).1
        exact ((List.pairwise_append.mp hxs).2.2 a ha last (by simp)).le
      · exact (List.mem_singleton.mp ha).le
    -- the entries of the other list up to the last one are the prefix, and a prefix of that list
    have hfilter : (ys ++ rest').filter (· ≤ last) = xs ++ [last] := by
      refine List.SortedLT.eq_of_mem_iff ?_ ?_ fun a => ?_
      · exact ((List.sortedLT_iff_pairwise.mp hy).filter _).sortedLT
      · exact (List.pairwise_append.mp hprefix).1.sortedLT
      · rw [List.mem_filter, decide_eq_true_eq]
        constructor
        · rintro ⟨ha, hale⟩
          exact (mem_iff_of_le_last hx hale).mp ((h a hale).mpr ha)
        · intro ha
          exact ⟨(h a (hle a ha)).mp (List.mem_append_left _ ha), hle a ha⟩
    have htake := List.prefix_iff_eq_take.mp (prefix_of_filter_le hy last)
    rw [hfilter, ← hlength, List.take_left] at htake
    exact htake

end Increasing

end Foundation
