import Mathlib.Algebra.BigOperators.Ring.Finset
import Mathlib.Algebra.Order.Archimedean.Basic
import Mathlib.Algebra.Order.Field.Basic
import Mathlib.Tactic.FieldSimp
import Mathlib.Tactic.GCongr
import Mathlib.Tactic.Linarith
import Mathlib.Tactic.Positivity
import Mathlib.Tactic.Ring

/-!
# Saturated linear recurrences

A control loop filters its input, integrates it, and feeds the part of its output that a limiter
cuts off back into the integral. Its recurrences over an ordered field: the filter stays bounded
and forgets its past, the integral stays bounded however long the output is cut off, and a
constant input drives the output to the limit and keeps it there.

## Main definitions

* `clamp M x`: the value `x` limited to `[-M, M]`

## Main results

* `abs_filter_le`, `abs_pole_lt_one`: the first-order filter of a bounded input is bounded
* `filter_eq_sum`: the filter in closed form
* `abs_backCalculation_le`: the integral with the cut-off part fed back is bounded
* `eventually_le_of_ratchet`: an integrator with feedback that is driven upward reaches the limit
  and stays
-/

namespace Foundation

/-! ## The limiter -/

section Clamp

variable {R : Type*} [CommRing R] [LinearOrder R]

/-- The value `x` limited to `[-M, M]`. -/
def clamp (M x : R) : R := max (-M) (min M x)

variable [IsStrictOrderedRing R] {M x : R}

theorem clamp_of_abs_le (h : |x| ≤ M) : clamp M x = x := by
  obtain ⟨h₁, h₂⟩ := abs_le.mp h
  rw [clamp, min_eq_right h₂, max_eq_right h₁]

theorem clamp_of_le (hM : 0 ≤ M) (h : M ≤ x) : clamp M x = M := by
  rw [clamp, min_eq_left h, max_eq_right (by linarith)]

theorem clamp_of_le_neg (hM : 0 ≤ M) (h : x ≤ -M) : clamp M x = -M := by
  rw [clamp, min_eq_right (by linarith), max_eq_left h]

theorem clamp_neg (hM : 0 ≤ M) (x : R) : clamp M (-x) = -clamp M x := by
  rcases le_total |x| M with h | h
  · rw [clamp_of_abs_le h, clamp_of_abs_le (by rw [abs_neg]; exact h)]
  · rcases le_abs'.mp h with h | h
    · rw [clamp_of_le_neg hM h, clamp_of_le hM (by linarith), neg_neg]
    · rw [clamp_of_le hM h, clamp_of_le_neg hM (by linarith)]

theorem abs_clamp_le (hM : 0 ≤ M) (x : R) : |clamp M x| ≤ M :=
  abs_le.mpr ⟨le_max_left _ _, max_le (by linarith) (min_le_left _ _)⟩

theorem clamp_eq_limit_iff (hM : 0 ≤ M) : clamp M x = M ↔ M ≤ x ∨ M = 0 := by
  constructor
  · intro h
    by_contra! hn
    obtain ⟨hx, hne⟩ := hn
    rw [clamp, min_eq_right hx.le] at h
    rcases max_choice (-M) x with hmax | hmax
    · exact hne (by linarith)
    · linarith
  · rintro (h | rfl)
    · exact clamp_of_le hM h
    · exact abs_nonpos_iff.mp (abs_clamp_le le_rfl x)

theorem clamp_eq_neg_limit_iff (hM : 0 ≤ M) : clamp M x = -M ↔ x ≤ -M ∨ M = 0 := by
  rw [← neg_eq_iff_eq_neg, ← clamp_neg hM, clamp_eq_limit_iff hM, le_neg]

end Clamp

variable {K : Type*} [Field K] [LinearOrder K] [IsStrictOrderedRing K]

/-! ## The filter -/

section Filter

variable {a b x d X T τ E : K}

/-- One step of a first-order filter keeps a bound that its pole and its input leave room for. -/
theorem abs_filter_le (hx : |x| ≤ X) (hd : |d| ≤ E) (hb : 0 ≤ b) (h : |a| * X + b * E ≤ X) :
    |a * x + b * d| ≤ X :=
  calc |a * x + b * d| ≤ |a * x| + |b * d| := abs_add_le _ _
    _ = |a| * |x| + b * |d| := by rw [abs_mul, abs_mul, abs_of_nonneg hb]
    _ ≤ |a| * X + b * E := by gcongr
    _ ≤ X := h

/-- The pole of the bilinear transform of a stable filter is inside the unit circle. -/
theorem abs_pole_lt_one (hτ : 0 < τ) (hT : 0 < T) : |(2 * τ - T) / (2 * τ + T)| < 1 := by
  have hs : 0 < 2 * τ + T := by positivity
  rw [abs_div, abs_of_pos hs, div_lt_one hs, abs_lt]
  constructor <;> linarith

/-- The bound of the filtered difference of an input that stays within `E`: above the period the
filter averages, below it the pole is negative and the filter overshoots. -/
theorem pole_mul_bound_le (hτ : 0 < τ) (hT : 0 < T) (hE : 0 ≤ E) :
    |(2 * τ - T) / (2 * τ + T)| * max (2 * E / T) (E / τ) + 2 / (2 * τ + T) * (2 * E) ≤
      max (2 * E / T) (E / τ) := by
  have hs : 0 < 2 * τ + T := by positivity
  rw [abs_div, abs_of_pos hs]
  rcases le_total T (2 * τ) with h | h
  · -- slow filter: the pole is not negative
    have hmax : max (2 * E / T) (E / τ) = 2 * E / T := by
      apply max_eq_left
      rw [div_le_div_iff₀ hτ hT]
      calc E * T ≤ E * (2 * τ) := by gcongr
        _ = 2 * E * τ := by ring
    rw [hmax, abs_of_nonneg (by linarith)]
    apply le_of_eq
    field_simp
    ring
  · -- fast filter: the pole is not positive
    have hmax : max (2 * E / T) (E / τ) = E / τ := by
      apply max_eq_right
      rw [div_le_div_iff₀ hT hτ]
      calc 2 * E * τ = E * (2 * τ) := by ring
        _ ≤ E * T := by gcongr
    rw [hmax, abs_of_nonpos (by linarith)]
    apply le_of_eq
    field_simp
    ring

omit [LinearOrder K] [IsStrictOrderedRing K] in
/-- The filter as a sum over the history of its input, over a run of `n` steps. -/
theorem filter_eq_sum {x d : ℕ → K} {n : ℕ} (start : x 0 = 0)
    (step : ∀ k < n, x (k + 1) = a * x k + d k) :
    x n = ∑ i ∈ Finset.range n, a ^ (n - (i + 1)) * d i := by
  induction n with
  | zero => rw [start, Finset.range_zero, Finset.sum_empty]
  | succ n ih =>
    have hterm : ∀ i ∈ Finset.range n,
        a * (a ^ (n - (i + 1)) * d i) = a ^ (n + 1 - (i + 1)) * d i := by
      intro i hi
      have hsub : n + 1 - (i + 1) = n - (i + 1) + 1 := by
        have := Finset.mem_range.mp hi
        omega
      rw [hsub, pow_succ]
      ring
    rw [step n (Nat.lt_succ_self n), ih fun k hk => step k (Nat.lt_succ_of_lt hk),
      Finset.sum_range_succ, Finset.mul_sum, Finset.sum_congr rfl hterm, Nat.sub_self, pow_zero,
      one_mul]

variable [Archimedean K]

/-- The powers of a pole inside the unit circle vanish. -/
theorem eventually_abs_pow_mul_le (ha : |a| < 1) (x : K) {ε : K} (hε : 0 < ε) :
    ∃ N : ℕ, ∀ n, N ≤ n → |a ^ n * x| ≤ ε := by
  have hpos : 0 < ε / (|x| + 1) := by positivity
  obtain ⟨N, hN⟩ := exists_pow_lt_of_lt_one hpos ha
  refine ⟨N, fun n hn => ?_⟩
  have hpow : |a| ^ n ≤ ε / (|x| + 1) :=
    (pow_le_pow_of_le_one (abs_nonneg a) ha.le hn).trans hN.le
  calc |a ^ n * x| = |a| ^ n * |x| := by rw [abs_mul, abs_pow]
    _ ≤ ε / (|x| + 1) * (|x| + 1) := by
      gcongr
      linarith
    _ = ε := by field_simp

end Filter

/-! ## The integral -/

section BackCalculation

variable {M T v w W Y : K}

/-- What the limiter takes from an output above the limit, fed back into the integral. -/
private theorem backCalculation_mem (hT₀ : 0 ≤ T) (hT₁ : T ≤ 1) (hY : 0 ≤ Y) (hw : |w| ≤ W)
    (hv : |v| ≤ M + W + Y + T * Y) (h : M ≤ v + w) :
    M - w ≤ v + T * (M - (v + w)) ∧ v + T * (M - (v + w)) ≤ M + W + Y := by
  obtain ⟨hw₁, hw₂⟩ := abs_le.mp hw
  have hv₂ := (abs_le.mp hv).2
  have hsplit : v + T * (M - (v + w)) = (1 - T) * v + T * (M - w) := by ring
  constructor
  · calc M - w = (1 - T) * (M - w) + T * (M - w) := by ring
      _ ≤ (1 - T) * v + T * (M - w) := by
        gcongr
        linarith
      _ = v + T * (M - (v + w)) := hsplit.symm
  · calc v + T * (M - (v + w)) = (1 - T) * v + T * (M - w) := hsplit
      _ ≤ (1 - T) * (M + W + Y + T * Y) + T * (M + W) := by
        gcongr
        linarith
      _ = M + W + Y - T * T * Y := by ring
      _ ≤ M + W + Y := sub_le_self _ (by positivity)

/-- **Back-calculation.** The integral part `v` of an output `v + w` grew by at most `T * Y` since
it was last bound; with the cut-off part of the output fed back it is bound again, by the limit,
the bound of the other part, and `Y`. -/
theorem abs_backCalculation_le (hM : 0 ≤ M) (hT₀ : 0 ≤ T) (hT₁ : T ≤ 1) (hY : 0 ≤ Y)
    (hw : |w| ≤ W) (hv : |v| ≤ M + W + Y + T * Y) :
    |v + T * (clamp M (v + w) - (v + w))| ≤ M + W + Y := by
  obtain ⟨hw₁, hw₂⟩ := abs_le.mp hw
  rcases le_total |v + w| M with h | h
  · -- nothing is cut off: the integral is the output less its other part
    obtain ⟨h₁, h₂⟩ := abs_le.mp h
    rw [clamp_of_abs_le h, sub_self, mul_zero, add_zero, abs_le]
    constructor <;> linarith
  · rcases le_abs'.mp h with h | h
    · -- below: the mirror image of above
      have hmem := backCalculation_mem (w := -w) (v := -v) hT₀ hT₁ hY
        ((abs_neg w).trans_le hw) ((abs_neg v).trans_le hv) (by linarith)
      have hneg : v + T * (-M - (v + w)) = -(-v + T * (M - (-v + -w))) := by ring
      rw [clamp_of_le_neg hM h, hneg, abs_neg, abs_le]
      constructor <;> linarith [hmem.1, hmem.2]
    · obtain ⟨h₁, h₂⟩ := backCalculation_mem hT₀ hT₁ hY hw hv h
      rw [clamp_of_le hM h, abs_le]
      constructor <;> linarith

end BackCalculation

/-! ## The drive to the limit -/

section Ratchet

variable {M T γ : K}

/-- One step of the driven integrator: below the limit it gains the drive, and from the limit on
it does not fall under it. -/
theorem ratchet_step (hM : 0 ≤ M) (hT₀ : 0 ≤ T) (hT₁ : T ≤ 1) (hγ : 0 ≤ γ) (x : K) :
    min M (x + γ) ≤ x + T * (clamp M x - x) + γ := by
  rcases le_total M x with h | h
  · -- at the limit or above: a part of the excess stays
    rw [clamp_of_le hM h]
    apply (min_le_left _ _).trans
    have hkeep : 0 ≤ (1 - T) * (x - M) := mul_nonneg (by linarith) (by linarith)
    linarith
  · -- below: the feedback does not pull down
    apply (min_le_right _ _).trans
    have hup : x ≤ clamp M x := le_max_of_le_right (le_min h le_rfl)
    have hpush : 0 ≤ T * (clamp M x - x) := mul_nonneg hT₀ (by linarith)
    linarith

variable [Archimedean K] {u g : ℕ → K}

/-- **The drive to the limit.** An integrator whose cut-off part is fed back, and whose drive is
at least a positive `γ` from some step on, is from some step on at the limit or above. -/
theorem eventually_le_of_ratchet (hM : 0 ≤ M) (hT₀ : 0 ≤ T) (hT₁ : T ≤ 1) (hγ : 0 < γ)
    (step : ∀ n, u (n + 1) = u n + T * (clamp M (u n) - u n) + g n)
    (drive : ∃ N, ∀ n, N ≤ n → γ ≤ g n) : ∃ N, ∀ n, N ≤ n → M ≤ u n := by
  obtain ⟨N, hN⟩ := drive
  have hgain : ∀ n, N ≤ n → min M (u n + γ) ≤ u (n + 1) := by
    intro n hn
    have h := ratchet_step hM hT₀ hT₁ hγ.le (u n)
    have hg := hN n hn
    rw [step]
    linarith
  -- after `k` steps the integrator has gained `k` times the drive, or is at the limit
  have hclimb : ∀ k : ℕ, min M (u N + k * γ) ≤ u (N + k) := by
    intro k
    induction k with
    | zero => simp
    | succ k ih =>
      have h := hgain (N + k) (Nat.le_add_right N k)
      rw [← Nat.add_assoc]
      refine le_trans (le_min (min_le_left _ _) ?_) h
      rcases min_le_iff.mp ih with hM' | hu
      · exact (min_le_left _ _).trans (by linarith)
      · apply (min_le_right _ _).trans
        push_cast
        linarith
  obtain ⟨k, hk⟩ := exists_nat_ge ((M - u N) / γ)
  refine ⟨N + k, fun n hn => ?_⟩
  obtain ⟨j, rfl⟩ := Nat.exists_eq_add_of_le hn
  have hreach : M ≤ u N + (k + j : ℕ) * γ := by
    have h₁ : M - u N ≤ k * γ := (div_le_iff₀ hγ).mp hk
    have h₂ : (0 : K) ≤ j * γ := by positivity
    push_cast
    linarith
  have h := hclimb (k + j)
  rw [min_eq_left hreach] at h
  rw [Nat.add_assoc]
  exact h

end Ratchet

end Foundation
