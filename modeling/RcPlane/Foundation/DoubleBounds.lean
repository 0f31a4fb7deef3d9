import RcPlane.Foundation.DoubleArithmetic

/-!
# Bounds of doubles

Finite doubles are ordered as the rationals they stand for, and an operation whose exact result is
below a bound is finite, with an error that is small against the bound.

## Main results

* `lt_iff`: the order of finite doubles
* `add_within`, `sub_within`, `mul_within`, `div_within`: results below a bound
-/

namespace Foundation

namespace Binary64

open Float.Model Float.Model.UnpackedFloat

/-! ## Order -/

/-- A larger exponent is a larger magnitude. -/
theorem magnitude_lt_of_exponent_lt {m m' : ℕ} {e e' : ℤ} (hm : m < 2 ^ 53) (he : -1074 ≤ e)
    (hm' : 2 ^ 52 ≤ m' ∨ e' = -1074) (h : e < e') : (m : ℚ) * 2 ^ e < m' * 2 ^ e' := by
  have hpos : (0 : ℚ) < 2 ^ e := zpow_pos (by norm_num) e
  have hm2 : (m : ℚ) < 2 ^ 53 := by exact_mod_cast hm
  have hm2' : (2 : ℚ) ^ 52 ≤ m' := by exact_mod_cast hm'.resolve_right (by omega)
  calc (m : ℚ) * 2 ^ e < 2 ^ 53 * 2 ^ e := mul_lt_mul_of_pos_right hm2 hpos
    _ = 2 ^ 52 * 2 ^ (e + 1) := by
      rw [zpow_add_one₀ (by norm_num)]
      ring
    _ ≤ m' * 2 ^ e' :=
      mul_le_mul hm2' (zpow_le_zpow_right₀ (by norm_num) h) (zpow_pos (by norm_num) _).le
        (Nat.cast_nonneg _)

/-- Magnitudes are compared by their exponents first. -/
theorem compare_magnitude {m m' : ℕ} {e e' : ℤ}
    (h : m < 2 ^ 53 ∧ -1074 ≤ e ∧ e ≤ 971 ∧ (2 ^ 52 ≤ m ∨ e = -1074))
    (h' : m' < 2 ^ 53 ∧ -1074 ≤ e' ∧ e' ≤ 971 ∧ (2 ^ 52 ≤ m' ∨ e' = -1074)) :
    (compare e e').then (compare m m') = compare ((m : ℚ) * 2 ^ e) (m' * 2 ^ e') := by
  have hpos : (0 : ℚ) < 2 ^ e := zpow_pos (by norm_num) e
  rcases lt_trichotomy e e' with hlt | rfl | hgt
  · rw [compare_lt_iff_lt.mpr hlt, compare_lt_iff_lt.mpr
      (magnitude_lt_of_exponent_lt h.1 h.2.1 h'.2.2.2 hlt)]
    rfl
  · rw [compare_eq_iff_eq.mpr rfl]
    show compare m m' = _
    rcases lt_trichotomy m m' with hm | rfl | hm
    · rw [compare_lt_iff_lt.mpr hm, compare_lt_iff_lt.mpr]
      exact mul_lt_mul_of_pos_right (by exact_mod_cast hm) hpos
    · rw [compare_eq_iff_eq.mpr rfl, compare_eq_iff_eq.mpr rfl]
    · rw [compare_gt_iff_gt.mpr hm, compare_gt_iff_gt.mpr]
      exact mul_lt_mul_of_pos_right (by exact_mod_cast hm) hpos
  · rw [compare_gt_iff_gt.mpr hgt, compare_gt_iff_gt.mpr
      (magnitude_lt_of_exponent_lt h'.1 h'.2.1 h.2.2.2 hgt)]
    rfl

theorem compare_neg (a b : ℚ) : compare (-a) (-b) = (compare a b).swap := by
  rcases lt_trichotomy a b with h | h | h
  · rw [compare_lt_iff_lt.mpr h, compare_gt_iff_gt.mpr (neg_lt_neg h)]
    rfl
  · rw [compare_eq_iff_eq.mpr h, compare_eq_iff_eq.mpr (congrArg Neg.neg h)]
    rfl
  · rw [compare_gt_iff_gt.mpr h, compare_lt_iff_lt.mpr (neg_lt_neg h)]
    rfl

theorem unpackedValue_positive_pos {m : ℕ} {e : ℤ} {hm : 0 < m} :
    0 < unpackedValue (.finite .positive m e hm) :=
  mul_pos (Int.cast_pos.mpr (Int.natCast_pos.mpr hm)) (zpow_pos (by norm_num) e)

theorem unpackedValue_negative {m : ℕ} {e : ℤ} {hm : 0 < m} :
    unpackedValue (.finite .negative m e hm) = -unpackedValue (.finite .positive m e hm) :=
  unpackedValue_neg (.finite .positive m e hm)

/-- Finite operands are compared as their values. -/
theorem compare_eq {p q : UnpackedFloat} (hp : Canonical p) (hq : Canonical q)
    (hfinite : p.isFinite = true) (hfinite' : q.isFinite = true) :
    p.compare q = some (compare (unpackedValue p) (unpackedValue q)) := by
  cases p with
  | notANumber => exact absurd hfinite Bool.false_ne_true
  | infinity s => exact absurd hfinite Bool.false_ne_true
  | zero s =>
    cases q with
    | notANumber => exact absurd hfinite' Bool.false_ne_true
    | infinity s' => exact absurd hfinite' Bool.false_ne_true
    | zero s' => exact (congrArg some (compare_eq_iff_eq.mpr rfl)).symm
    | finite s' m e hm =>
      have hpos := @unpackedValue_positive_pos m e hm
      cases s' with
      | negative =>
        rw [unpackedValue_negative]
        exact (congrArg some (compare_gt_iff_gt.mpr (neg_neg_of_pos hpos))).symm
      | positive => exact (congrArg some (compare_lt_iff_lt.mpr hpos)).symm
  | finite s m e hm =>
    have hpos := @unpackedValue_positive_pos m e hm
    cases q with
    | notANumber => exact absurd hfinite' Bool.false_ne_true
    | infinity s' => exact absurd hfinite' Bool.false_ne_true
    | zero s' =>
      cases s with
      | negative =>
        rw [unpackedValue_negative]
        exact (congrArg some (compare_lt_iff_lt.mpr (neg_neg_of_pos hpos))).symm
      | positive => exact (congrArg some (compare_gt_iff_gt.mpr hpos)).symm
    | finite s' m' e' hm' =>
      have hpos' := @unpackedValue_positive_pos m' e' hm'
      have hmagnitude := compare_magnitude hp hq
      cases s with
      | negative =>
        rw [unpackedValue_negative]
        cases s' with
        | negative =>
          rw [unpackedValue_negative]
          show some ((compare e e').then (compare m m')).swap = _
          rw [hmagnitude]
          exact congrArg some (compare_neg _ _).symm
        | positive =>
          exact (congrArg some (compare_lt_iff_lt.mpr ((neg_neg_of_pos hpos).trans hpos'))).symm
      | positive =>
        cases s' with
        | negative =>
          rw [unpackedValue_negative]
          exact (congrArg some (compare_gt_iff_gt.mpr ((neg_neg_of_pos hpos').trans hpos))).symm
        | positive => exact congrArg some hmagnitude

/-- **Order.** Finite doubles are ordered as their values. -/
theorem lt_iff {x y : Float} (hx : x.isFinite = true) (hy : y.isFinite = true) :
    x < y ↔ value x < value y := by
  show decide (x.toModel < y.toModel) = true ↔ _
  rw [decide_eq_true_iff]
  show (x.toModel.unpack.compare y.toModel.unpack == some .lt) = true ↔ _
  rw [compare_eq (canonical x) (canonical y) hx hy, beq_iff_eq, Option.some_inj]
  exact compare_lt_iff_lt

/-! ## Operations on bounded operands -/

section Within

variable {x y : Float} {v bound : ℚ}

theorem inRange_of_le (h : |v| ≤ bound) (hhigh : bound ≤ 2 ^ 200) : InRange v := by
  have hroom : (2 : ℚ) ^ 200 < overflow := by decide +kernel
  exact (h.trans hhigh).trans_lt hroom

theorem ulp_le (h : |v| ≤ bound) (hlow : 1 ≤ bound) : ulp v ≤ bound / 2 ^ 51 := by
  have htiny : (2 : ℚ) ^ (-1074 : ℤ) ≤ 1 / 2 ^ 52 := by
    rw [zpow_neg, ← one_div]
    exact one_div_le_one_div_of_le (by positivity)
      (zpow_le_zpow_right₀ (by norm_num) (show (52 : ℤ) ≤ 1074 by norm_num))
  calc ulp v ≤ bound / 2 ^ 52 + bound / 2 ^ 52 :=
        add_le_add (by gcongr) (htiny.trans (by gcongr))
    _ = bound / 2 ^ 51 := by ring

theorem abs_le_add {w err : ℚ} (hv : |v| ≤ bound) (hw : |w - v| ≤ err) : |w| ≤ bound + err := by
  have h := abs_add_le (w - v) v
  rw [sub_add_cancel] at h
  linarith

/-- A sum below a bound is finite, and its error is small against the bound. -/
theorem add_within (hx : x.isFinite = true) (hy : y.isFinite = true)
    (h : |value x + value y| ≤ bound) (hlow : 1 ≤ bound) (hhigh : bound ≤ 2 ^ 200) :
    (x + y).isFinite = true ∧ |value (x + y) - (value x + value y)| ≤ bound / 2 ^ 51 := by
  have hfinite := (isFinite_add x y).mpr ⟨hx, hy, inRange_of_le h hhigh⟩
  exact ⟨hfinite, (abs_add_sub_le hfinite).trans (ulp_le h hlow)⟩

theorem sub_within (hx : x.isFinite = true) (hy : y.isFinite = true)
    (h : |value x - value y| ≤ bound) (hlow : 1 ≤ bound) (hhigh : bound ≤ 2 ^ 200) :
    (x - y).isFinite = true ∧ |value (x - y) - (value x - value y)| ≤ bound / 2 ^ 51 := by
  have hfinite := (isFinite_sub x y).mpr ⟨hx, hy, inRange_of_le h hhigh⟩
  exact ⟨hfinite, (abs_sub_sub_le hfinite).trans (ulp_le h hlow)⟩

theorem mul_within (hx : x.isFinite = true) (hy : y.isFinite = true)
    (h : |value x * value y| ≤ bound) (hlow : 1 ≤ bound) (hhigh : bound ≤ 2 ^ 200) :
    (x * y).isFinite = true ∧ |value (x * y) - value x * value y| ≤ bound / 2 ^ 51 := by
  have hfinite := (isFinite_mul x y).mpr ⟨hx, hy, inRange_of_le h hhigh⟩
  exact ⟨hfinite, (abs_mul_sub_le hfinite).trans (ulp_le h hlow)⟩

theorem div_within (hx : x.isFinite = true) (hy : y.isFinite = true) (hne : value y ≠ 0)
    (h : |value x / value y| ≤ bound) (hlow : 1 ≤ bound) (hhigh : bound ≤ 2 ^ 200) :
    (x / y).isFinite = true ∧ |value (x / y) - value x / value y| ≤ bound / 2 ^ 51 := by
  have hfinite := (isFinite_div hy).mpr ⟨hx, hne, inRange_of_le h hhigh⟩
  exact ⟨hfinite, (abs_div_sub_le hy hfinite).trans (ulp_le h hlow)⟩

end Within

end Binary64

end Foundation
