import RcPlane.Autopilot.AutopilotUtility
import Mathlib.Data.Int.ConditionallyCompleteOrder
import Mathlib.Order.Interval.Set.Basic
import Mathlib.Tactic.FieldSimp
import Mathlib.Tactic.Ring

/-!
# The rescale of a stick

`bindToRange` divides a shifted numerator, and C++ division truncates toward zero. On the input
range the shift makes the numerator non-negative, so the quotient is a floor: the rescale is the
affine map between the two ranges rounded toward the lower output, whatever the signs of the four
bounds. That makes it a faithful rescale, and it also makes it uneven around neutral: a stick
deflected to the left is rounded away from zero and the same stick to the right toward zero.

## Main definitions

* `affine`: the exact rescale
* `FaithfulRescale`: what a rescale of one integer range to another should do

## Main results

* `bindToRange_faithful`: the rescale is faithful, and narrowing a bound stick changes nothing
* `bindToRange_unbiased_iff`: the rescale of a stick is truncated, and odd, exactly when it is
  exact
* `bindRcDeflection_neg_iff`: the same for the deflection of a control surface
-/

namespace RcPlane

open Foundation

/-- The exact affine map that takes `inputMin` to `outputMin` and `inputMax` to `outputMax`. -/
def affine (inputMin inputMax outputMin outputMax : ℤ) (value : ℚ) : ℚ :=
  (value - inputMin) * (outputMax - outputMin) / (inputMax - inputMin) + outputMin

/-- An integer rescale that keeps the range, maps its ends to the ends, is monotone and stays
within one of the exact affine map. -/
structure FaithfulRescale (rescale : ℤ → ℤ) (inputMin inputMax outputMin outputMax : ℤ) :
    Prop where
  mem : ∀ v ∈ Set.Icc inputMin inputMax, rescale v ∈ Set.Icc outputMin outputMax
  map_min : rescale inputMin = outputMin
  map_max : rescale inputMax = outputMax
  mono : MonotoneOn rescale (Set.Icc inputMin inputMax)
  close : ∀ v ∈ Set.Icc inputMin inputMax,
    |(rescale v : ℚ) - affine inputMin inputMax outputMin outputMax v| < 1

/-! ## The rescale is a floor -/

section Floor

variable {inputMin inputMax outputMin outputMax : ℤ}

/-- On the input range the numerator is not negative, so the truncating division is a floor. -/
theorem bindToRange_eq_ediv (ho : outputMin ≤ outputMax) {v : ℤ} (hv : inputMin ≤ v) :
    bindToRange v inputMin inputMax outputMin outputMax =
      (v - inputMin) * (outputMax - outputMin) / (inputMax - inputMin) + outputMin := by
  have hn : 0 ≤ (v - inputMin) * (outputMax - outputMin) :=
    mul_nonneg (sub_nonneg.mpr hv) (sub_nonneg.mpr ho)
  rw [bindToRange, tdiv_of_nonneg hn]

@[simp] theorem bindToRange_inputMin :
    bindToRange inputMin inputMin inputMax outputMin outputMax = outputMin := by
  simp [bindToRange]

theorem bindToRange_inputMax (hi : inputMin < inputMax) :
    bindToRange inputMax inputMin inputMax outputMin outputMax = outputMax := by
  have h0 : inputMax - inputMin ≠ 0 := by omega
  rw [bindToRange, Int.mul_tdiv_cancel_left _ h0]
  omega

theorem bindToRange_mono (hi : inputMin < inputMax) (ho : outputMin ≤ outputMax) {v w : ℤ}
    (hv : inputMin ≤ v) (hvw : v ≤ w) :
    bindToRange v inputMin inputMax outputMin outputMax ≤
      bindToRange w inputMin inputMax outputMin outputMax := by
  rw [bindToRange_eq_ediv ho hv, bindToRange_eq_ediv ho (hv.trans hvw)]
  have hn : (v - inputMin) * (outputMax - outputMin) ≤
      (w - inputMin) * (outputMax - outputMin) :=
    mul_le_mul_of_nonneg_right (by omega) (by omega)
  have hq := Int.ediv_le_ediv (show 0 < inputMax - inputMin by omega) hn
  omega

/-- The rescale is less than one below the exact affine map, and never above it. -/
theorem affine_sub_bindToRange (hi : inputMin < inputMax) (ho : outputMin ≤ outputMax) {v : ℤ}
    (hv : inputMin ≤ v) :
    0 ≤ affine inputMin inputMax outputMin outputMax v -
        bindToRange v inputMin inputMax outputMin outputMax ∧
      affine inputMin inputMax outputMin outputMax v -
        bindToRange v inputMin inputMax outputMin outputMax < 1 := by
  set n := (v - inputMin) * (outputMax - outputMin) with hn
  set d := inputMax - inputMin with hd
  have hd0 : 0 < d := by omega
  have hdq : (0 : ℚ) < d := by exact_mod_cast hd0
  have hlo : ((n / d * d : ℤ) : ℚ) ≤ n := by exact_mod_cast Int.ediv_mul_le n hd0.ne'
  have hhi : (n : ℚ) < ((n / d + 1) * d : ℤ) := by exact_mod_cast Int.lt_ediv_add_one_mul_self n hd0
  have hgap : affine inputMin inputMax outputMin outputMax v -
      bindToRange v inputMin inputMax outputMin outputMax = (n : ℚ) / d - (n / d : ℤ) := by
    rw [bindToRange_eq_ediv ho hv, ← hn, ← hd, affine, hn, hd]
    push_cast
    ring
  rw [hgap, sub_nonneg, sub_lt_iff_lt_add, le_div_iff₀ hdq, div_lt_iff₀ hdq]
  constructor
  · push_cast at hlo
    exact hlo
  · push_cast at hhi
    linarith

theorem bindToRange_faithfulRescale (hi : inputMin < inputMax) (ho : outputMin ≤ outputMax) :
    FaithfulRescale (fun v => bindToRange v inputMin inputMax outputMin outputMax)
      inputMin inputMax outputMin outputMax where
  mem v hv := by
    -- monotone between the two ends
    have hlo := bindToRange_mono hi ho le_rfl hv.1
    have hhi := bindToRange_mono hi ho hv.1 hv.2
    rw [bindToRange_inputMin] at hlo
    rw [bindToRange_inputMax hi] at hhi
    exact ⟨hlo, hhi⟩
  map_min := bindToRange_inputMin
  map_max := bindToRange_inputMax hi
  mono _ hv _ _ hvw := bindToRange_mono hi ho hv.1 hvw
  close v hv := by
    obtain ⟨h₁, h₂⟩ := affine_sub_bindToRange hi ho hv.1
    rw [abs_sub_comm, abs_of_nonneg h₁]
    exact h₂

end Floor

/-! ## The bound sticks -/

/-- A nominal stick and a limit that is not negative give a deflection of signed byte range, and
so does the limit's negation, which the call passes as an `int8_t` of its own. -/
theorem bindRcDeflection_toInt {limit value : Int8} (hl : 0 ≤ limit.toInt)
    (h₁ : -100 ≤ value.toInt) (h₂ : value.toInt ≤ 100) :
    (bindRcDeflection limit value).toInt =
      bindToRange value.toInt (-100) 100 (-limit.toInt) limit.toInt := by
  have hb := int8_toInt_bounds limit
  have hm := (bindToRange_faithfulRescale (show (-100 : ℤ) < 100 by decide)
    (show -limit.toInt ≤ limit.toInt by omega)).mem value.toInt ⟨h₁, h₂⟩
  have hn : (Int8.ofInt (-limit.toInt)).toInt = -limit.toInt :=
    int8_ofInt_of_mem (by omega) (by omega)
  rw [bindRcDeflection, hn]
  exact int8_ofInt_of_mem (by linarith [hm.1]) (by linarith [hm.2])

theorem bindRcThrottle_toNat_of_nominal (u : AutopilotUtility) {value : UInt8}
    (h : value.toNat ≤ 100) :
    ((u.bindRcThrottle value).toNat : ℤ) =
      bindToRange value.toNat 0 100 0 u.maxThrottle.toNat := by
  have hm := (bindToRange_faithfulRescale (show (0 : ℤ) < 100 by decide)
    (show (0 : ℤ) ≤ u.maxThrottle.toNat by omega)).mem value.toNat ⟨by omega, by omega⟩
  have hb := uint8_toNat_le u.maxThrottle
  rw [AutopilotUtility.bindRcThrottle, uint8_ofInt_toNat]
  exact Int.emod_eq_of_lt hm.1 (by have := hm.2; omega)

/-- **The rescale is faithful**, for every pair of ranges, and with nominal sticks and limits
that are not negative its narrowing to the 8-bit return types changes nothing. -/
theorem bindToRange_faithful {inputMin inputMax outputMin outputMax : ℤ}
    (hi : inputMin < inputMax) (ho : outputMin ≤ outputMax) {u : AutopilotUtility}
    (hu : u.NonNeg) :
    FaithfulRescale (fun v => bindToRange v inputMin inputMax outputMin outputMax)
        inputMin inputMax outputMin outputMax ∧
      (∀ value : UInt8, value.toNat ≤ 100 →
        ((u.bindRcThrottle value).toNat : ℤ) =
          bindToRange value.toNat 0 100 0 u.maxThrottle.toNat) ∧
      ∀ value : Int8, -100 ≤ value.toInt → value.toInt ≤ 100 →
        (u.bindRcAileronDeflection value).toInt =
            bindToRange value.toInt (-100) 100 (-u.maxAileronDeflection.toInt)
              u.maxAileronDeflection.toInt ∧
          (u.bindRcElevatorDeflection value).toInt =
            bindToRange value.toInt (-100) 100 (-u.maxElevatorDeflection.toInt)
              u.maxElevatorDeflection.toInt ∧
          (u.bindRcRudderDeflection value).toInt =
            bindToRange value.toInt (-100) 100 (-u.maxRudderDeflection.toInt)
              u.maxRudderDeflection.toInt := by
  refine ⟨bindToRange_faithfulRescale hi ho, fun _ => bindRcThrottle_toNat_of_nominal u, ?_⟩
  intro value h₁ h₂
  exact ⟨bindRcDeflection_toInt hu.aileron h₁ h₂, bindRcDeflection_toInt hu.elevator h₁ h₂,
    bindRcDeflection_toInt hu.rudder h₁ h₂⟩

/-- Two ranges with negative ends, and the limits of the shipped configuration. -/
theorem bindToRange_faithful_shipped :
    FaithfulRescale (fun v => bindToRange v (-7) 5 (-9) (-2)) (-7) 5 (-9) (-2) ∧
      ((⟨255, 35, 40, 20⟩ : AutopilotUtility).bindRcAileronDeflection (-10)).toInt =
        bindToRange (-10) (-100) 100 (-35) 35 := by
  obtain ⟨h, -, hs⟩ := bindToRange_faithful (show (-7 : ℤ) < 5 by decide)
    (show (-9 : ℤ) ≤ -2 by decide) (show (⟨255, 35, 40, 20⟩ : AutopilotUtility).NonNeg by decide)
  exact ⟨h, (hs (-10) (by decide) (by decide)).1⟩

/-! ## Around neutral -/

/-- The rescale of a stick is the exact deflection rounded down, on either side of neutral. -/
theorem bindToRange_symmetric {N M s : ℤ} (hN : 0 < N) (hM : 0 ≤ M) (hs : -N ≤ s) :
    bindToRange s (-N) N (-M) M = M * s / N := by
  have hn : (s - -N) * (M - -M) = 2 * (M * s + N * M) := by ring
  have hd : N - -N = 2 * N := by ring
  rw [bindToRange_eq_ediv (by omega) hs, hn, hd, Int.mul_ediv_mul_of_pos _ _ two_pos,
    Int.add_mul_ediv_left _ _ hN.ne']
  ring

/-- Rounding down is odd on a quotient exactly when it is exact. -/
theorem neg_ediv_eq_neg_iff {a b : ℤ} (hb : 0 < b) : -a / b = -(a / b) ↔ b ∣ a := by
  constructor
  · intro h
    have h₁ := Int.emod_add_mul_ediv a b
    have h₂ := Int.emod_add_mul_ediv (-a) b
    have h₃ := Int.emod_nonneg a hb.ne'
    have h₄ := Int.emod_nonneg (-a) hb.ne'
    rw [h, mul_neg] at h₂
    exact Int.dvd_of_emod_eq_zero (by omega)
  · exact fun h => Int.neg_ediv_of_dvd h

/-- Rounding down a quotient is truncating it where it is not negative, or exact. -/
theorem ediv_eq_tdiv_iff {a b : ℤ} (hb : 0 < b) : a / b = a.tdiv b ↔ 0 ≤ a ∨ b ∣ a := by
  rcases le_or_gt 0 a with ha | ha
  · simp [tdiv_of_nonneg ha, ha]
  · rw [tdiv_of_nonpos ha.le, eq_comm, neg_eq_iff_eq_neg, neg_ediv_eq_neg_iff hb]
    simp [not_le.mpr ha]

/-- **The rescale of a stick is biased toward its lower end**: it equals the exact deflection
truncated toward zero, and is odd, exactly for the sticks whose deflection is exact. Truncation
alone fails only below neutral. -/
theorem bindToRange_unbiased_iff {N M s : ℤ} (hN : 0 < N) (hM : 0 ≤ M) (h₁ : -N ≤ s)
    (h₂ : s ≤ N) :
    (bindToRange s (-N) N (-M) M = (M * s).tdiv N ∧
        bindToRange (-s) (-N) N (-M) M = -bindToRange s (-N) N (-M) M ↔ N ∣ M * s) ∧
      (bindToRange s (-N) N (-M) M = (M * s).tdiv N ↔ 0 ≤ M * s ∨ N ∣ M * s) := by
  rw [bindToRange_symmetric hN hM h₁, bindToRange_symmetric hN hM (by omega), mul_neg,
    neg_ediv_eq_neg_iff hN, ediv_eq_tdiv_iff hN]
  exact ⟨and_iff_right_of_imp Or.inr, Iff.rfl⟩

/-- The aileron limit of the shipped configuration. -/
theorem bindToRange_unbiased_iff_shipped :
    (bindToRange (-20) (-100) 100 (-35) 35 = -7 ∧ bindToRange 20 (-100) 100 (-35) 35 = 7) ∧
      ¬ (bindToRange (-10) (-100) 100 (-35) 35 = (35 * -10 : ℤ).tdiv 100) := by
  have hexact := (bindToRange_unbiased_iff (N := 100) (M := 35) (s := -20) (by decide) (by decide)
    (by decide) (by decide)).1.mpr (by decide)
  have hbias := (bindToRange_unbiased_iff (N := 100) (M := 35) (s := -10) (by decide) (by decide)
    (by decide) (by decide)).2
  rw [hbias]
  exact ⟨⟨hexact.1, hexact.2.trans (by rw [hexact.1]; rfl)⟩, by decide⟩

/-- A tenth of the stick to the left deflects the aileron by four, to the right by three. -/
theorem bindToRange_biased :
    ¬ ∀ N M s : ℤ, 0 < N → 0 ≤ M → -N ≤ s → s ≤ N →
      bindToRange s (-N) N (-M) M = (M * s).tdiv N ∧
        bindToRange (-s) (-N) N (-M) M = -bindToRange s (-N) N (-M) M := by
  intro h
  have := (h 100 35 (-10) (by decide) (by decide) (by decide) (by decide)).1
  revert this
  decide

/-- Opposite nominal sticks give opposite deflections exactly where the deflection is exact. -/
theorem bindRcDeflection_neg_iff {limit value : Int8} (hl : 0 ≤ limit.toInt)
    (h₁ : -100 ≤ value.toInt) (h₂ : value.toInt ≤ 100) :
    (bindRcDeflection limit (Int8.ofInt (-value.toInt))).toInt =
        -(bindRcDeflection limit value).toInt ↔
      100 ∣ limit.toInt * value.toInt := by
  have hv : (Int8.ofInt (-value.toInt)).toInt = -value.toInt :=
    int8_ofInt_of_mem (by omega) (by omega)
  rw [bindRcDeflection_toInt hl (by omega) (by omega), bindRcDeflection_toInt hl h₁ h₂, hv,
    bindToRange_symmetric (by decide) hl (by omega), bindToRange_symmetric (by decide) hl h₁,
    mul_neg, neg_ediv_eq_neg_iff (by decide)]

end RcPlane
