import Mathlib

/-!
# Rounding to doubles

`Float` is the IEEE 754 format binary64: an operation computes the exact result and rounds it to the
nearest value of the format, ties to even. The exact result is cut off at the exponent of the
result, and what was cut off is kept as its accuracy; rounding may carry into one more bit. The
result is an infinity when the exact one is at least half a unit of the last place past the largest
finite value.

## Main definitions

* `value`: the rational that a `Float` stands for
* `overflow`, `InRange`: the threshold, and the rationals below it
* `ofMantissa`: a significand and an exponent, or zero
* `Represents`: what a truncated significand and its accuracy say of the exact value

## Main results

* `roundWithAccuracy_eq`: what a result is rounded to
* `isFinite_roundWithAccuracy`: when the exponent of a rounded result is not too large
* `isFinite_round_iff`: a rounded result is finite exactly when the exact one is below the threshold
-/

namespace Foundation

namespace Binary64

open Float.Model Float.Model.UnpackedFloat

/-! ## Packed values -/

/-- The patterns of finite values are those whose exponent is not all ones. -/
theorem isFinite_unpack (b : BitVec Format.binary64.numBits) :
    (UnpackedFloat.unpack Format.binary64 b).isFinite = true ↔ unpackExponent b ≠ -1#_ := by
  unfold UnpackedFloat.unpack
  by_cases hexp : unpackExponent b = -1#_
  · refine iff_of_false ?_ (fun h => h hexp)
    simp only [hexp, if_true]
    split_ifs <;> exact Bool.false_ne_true
  · refine iff_of_true ?_ hexp
    simp only [hexp, if_false]
    split_ifs <;> rfl

/-- What is packed stays finite unless its exponent is too large. -/
theorem isFinite_pack (f : UnpackedFloat) :
    (Float.Model.pack f).unpack.isFinite = true ↔
      match f with
      | .notANumber => False
      | .infinity _ => False
      | .zero _ => True
      | .finite _ _ e _ => e ≤ 971 := by
  rw [Float.Model.unpack, isFinite_unpack]
  show unpackExponent (UnpackedFloat.pack Format.binary64 f) ≠ _ ↔ _
  cases f with
  | notANumber => decide
  | infinity s => cases s <;> decide
  | zero s => cases s <;> decide
  | finite s m e hm =>
    have hbias : ((Format.binary64.exponentBias : ℕ) : ℤ) = 1023 := by decide
    unfold UnpackedFloat.pack
    simp only [hbias]
    -- an infinity, a normal number, and a subnormal one
    split_ifs with hover hnormal
    · simp only [packedInfinity, unpackExponent_packComponents]
      simp
      norm_num at hover
      omega
    · rw [unpackExponent_packComponents, Ne, ← BitVec.toNat_inj]
      norm_num at hover ⊢
      omega
    · rw [unpackExponent_packComponents]
      norm_num at hover ⊢
      omega

/-- The rational that an unpacked value stands for; zero for the infinities and not-a-number. -/
def unpackedValue : UnpackedFloat → ℚ
  | .finite s m e _ => (s.apply m : ℤ) * (2 : ℚ) ^ e
  | _ => 0

/-- The rational that a `Float` stands for. -/
def value (x : Float) : ℚ := unpackedValue x.toModel.unpack

/-- The significand has 53 bits, or the number is subnormal. -/
theorem canonical_unpack (b : BitVec Format.binary64.numBits) {s : Sign} {m : ℕ} {e : ℤ}
    {hm : 0 < m} (h : UnpackedFloat.unpack Format.binary64 b = .finite s m e hm) :
    m < 2 ^ 53 ∧ -1074 ≤ e ∧ e ≤ 971 ∧ (2 ^ 52 ≤ m ∨ e = -1074) := by
  have hbias : ((Format.binary64.exponentBias : ℕ) : ℤ) = 1023 := by decide
  have hexp : (unpackExponent b).toNat < 2 ^ 11 := (unpackExponent b).isLt
  have hman : (unpackMantissa b).toNat < 2 ^ 52 := (unpackMantissa b).isLt
  unfold UnpackedFloat.unpack at h
  rw [hbias] at h
  dsimp only at h
  split_ifs at h with h1 h2 h3 h4
  · obtain ⟨rfl, rfl, rfl⟩ := UnpackedFloat.finite.inj h
    rw [h3]
    simp
    omega
  · obtain ⟨rfl, rfl, rfl⟩ := UnpackedFloat.finite.inj h
    have h1' : (unpackExponent b).toNat ≠ 2047 := by
      intro hh
      apply h1
      rw [← BitVec.toNat_inj, hh]
      rfl
    have h3' : (unpackExponent b).toNat ≠ 0 := by
      intro hh
      apply h3
      rw [← BitVec.toNat_inj, hh]
      rfl
    have happ : (1#1 ++ unpackMantissa b).toNat = 2 ^ 52 + (unpackMantissa b).toNat := by
      rw [BitVec.toNat_append, ← Nat.shiftLeft_add_eq_or_of_lt hman]
      rfl
    rw [happ]
    simp
    omega

/-! ## Rounding -/

/-- The significand was cut off at the exponent, and the accuracy says where the exact value lies
between it and the next one. -/
def Represents (v : ℚ) (m : ℕ) (e : ℤ) : Accuracy → Prop
  | .exact => v = m * 2 ^ e
  | .inexact .lt => m * 2 ^ e < v ∧ v < (m + 1 / 2) * 2 ^ e
  | .inexact .eq => v = (m + 1 / 2) * 2 ^ e
  | .inexact .gt => (m + 1 / 2) * 2 ^ e < v ∧ v < (m + 1) * 2 ^ e

theorem Represents.le {v : ℚ} {m : ℕ} {e : ℤ} {acc : Accuracy} (h : Represents v m e acc) :
    m * 2 ^ e ≤ v ∧ v < (m + 1) * 2 ^ e := by
  have hpos : (0 : ℚ) < 2 ^ e := zpow_pos (by norm_num) e
  unfold Represents at h
  split at h
  · constructor <;> nlinarith
  · constructor <;> nlinarith
  · constructor <;> nlinarith
  · constructor <;> nlinarith

@[simp] theorem mantissa_ofMantissaAndAccuracy (m : ℕ) (acc : Accuracy) :
    (ExtendedMantissa.ofMantissaAndAccuracy m acc).mantissa = m := by
  cases acc with
  | exact => rfl
  | inexact o => cases o <;> rfl

theorem mantissa_shiftRight (em : ExtendedMantissa) (k : ℕ) :
    (em >>> k).mantissa = em.mantissa / 2 ^ k := by
  induction k with
  | zero => exact (Nat.div_one _).symm
  | succ k ih =>
    show (em >>> k).mantissa / 2 = _
    rw [ih, Nat.div_div_eq_div_mul, pow_succ]

/-- The round bit is the last one shifted out. -/
theorem roundBit_shiftRight (em : ExtendedMantissa) (k : ℕ) :
    (em >>> (k + 1)).roundBit = (em.mantissa / 2 ^ k % 2 != 0) := by
  show ((em >>> k).mantissa % 2 != 0) = _
  rw [mantissa_shiftRight]

/-- Rounding adds at most one, and to an odd significand it does so by the round bit. -/
theorem roundedMantissa_eq (em : ExtendedMantissa) :
    em.mantissa ≤ em.roundedMantissa ∧ em.roundedMantissa ≤ em.mantissa + 1 ∧
      (em.mantissa % 2 = 1 → (em.roundedMantissa = em.mantissa + 1 ↔ em.roundBit = true)) := by
  obtain ⟨m, roundBit, stickyBit⟩ := em
  cases roundBit <;> cases stickyBit
  · refine ⟨le_refl _, Nat.le_succ _, fun _ => ?_⟩
    exact iff_of_false (Nat.ne_of_lt (Nat.lt_succ_self m)) Bool.false_ne_true
  · refine ⟨le_refl _, Nat.le_succ _, fun _ => ?_⟩
    exact iff_of_false (Nat.ne_of_lt (Nat.lt_succ_self m)) Bool.false_ne_true
  · show m ≤ m + m % 2 ∧ m + m % 2 ≤ m + 1 ∧ (m % 2 = 1 → (m + m % 2 = m + 1 ↔ true = true))
    refine ⟨by omega, by omega, fun h => ?_⟩
    rw [h]
    exact iff_of_true rfl rfl
  · exact ⟨Nat.le_succ _, le_refl _, fun _ => iff_of_true rfl rfl⟩

/-- The exponent that a result is rounded to. -/
def resultExponent (m : ℕ) (e : ℤ) : ℤ := Format.binary64.targetExponent (totalExponent m e)

theorem resultExponent_eq (m : ℕ) (e : ℤ) :
    resultExponent m e = max (m.log2 + 1 + e - 53) (-1074) := rfl

/-- The significand rounded to the exponent of the result. -/
def rounded (m : ℕ) (e : ℤ) (acc : Accuracy) : ℕ :=
  (shiftToTargetExponent Format.binary64 m e acc).1.roundedMantissa

theorem div_lt_of_log2_le {m k : ℕ} (h : m.log2 ≤ 52 + k) : m / 2 ^ k < 2 ^ 53 := by
  rw [Nat.div_lt_iff_lt_mul (by positivity), ← pow_add]
  calc m < 2 ^ (m.log2 + 1) := Nat.lt_log2_self
    _ ≤ 2 ^ (53 + k) := Nat.pow_le_pow_right (by norm_num) (by omega)

theorem rounded_bounds (m : ℕ) (e : ℤ) (acc : Accuracy) :
    m / 2 ^ (resultExponent m e - e).toNat ≤ rounded m e acc ∧
      rounded m e acc ≤ m / 2 ^ (resultExponent m e - e).toNat + 1 := by
  have h := roundedMantissa_eq
    (ExtendedMantissa.ofMantissaAndAccuracy m acc >>> (resultExponent m e - e).toNat)
  rw [mantissa_shiftRight, mantissa_ofMantissaAndAccuracy] at h
  exact ⟨h.1, h.2.1⟩

theorem rounded_le {m : ℕ} {e : ℤ} (acc : Accuracy) (he : e ≤ resultExponent m e) :
    rounded m e acc ≤ 2 ^ 53 := by
  have hlt : m / 2 ^ (resultExponent m e - e).toNat < 2 ^ 53 := by
    apply div_lt_of_log2_le
    rw [resultExponent_eq] at he ⊢
    omega
  exact (rounded_bounds m e acc).2.trans hlt

/-- The second shift is by one place if the rounding has carried, and by none otherwise. -/
theorem carry_eq {r : ℕ} {e : ℤ} (hr : r ≤ 2 ^ 53) (he : -1074 ≤ e) :
    (resultExponent r e - e).toNat = if r < 2 ^ 53 then 0 else 1 := by
  rw [resultExponent_eq]
  split_ifs with hlt
  · have hlog : r.log2 ≤ 52 := by
      by_cases h0 : r = 0
      · rw [h0]
        decide
      · exact Nat.lt_succ_iff.mp ((Nat.log2_lt h0).mpr hlt)
    omega
  · obtain rfl : r = 2 ^ 53 := le_antisymm hr (not_lt.mp hlt)
    rw [Nat.log2_two_pow]
    omega

/-- A significand and an exponent; zero if the significand is. -/
def ofMantissa (s : Sign) (m : ℕ) (e : ℤ) : UnpackedFloat :=
  if h : m = 0 then .zero s else .finite s m e (Nat.pos_of_ne_zero h)

theorem isFinite_pack_ofMantissa (s : Sign) (m : ℕ) (e : ℤ) :
    (Float.Model.pack (ofMantissa s m e)).unpack.isFinite = true ↔ m = 0 ∨ e ≤ 971 := by
  rw [isFinite_pack, ofMantissa]
  split_ifs with hzero
  · exact iff_of_true trivial (Or.inl hzero)
  · exact (or_iff_right hzero).symm

theorem le_resultExponent (m : ℕ) (e : ℤ) : -1074 ≤ resultExponent m e := by
  rw [resultExponent_eq]
  exact le_max_right _ _

/-- What is rounded to: a significand that has carried loses its last bit, which is zero. -/
theorem roundWithAccuracy_eq (s : Sign) {m : ℕ} {e : ℤ} (acc : Accuracy)
    (he : e ≤ resultExponent m e) :
    roundWithAccuracy Format.binary64 s m e acc =
      if rounded m e acc < 2 ^ 53 then ofMantissa s (rounded m e acc) (resultExponent m e)
      else ofMantissa s (2 ^ 52) (resultExponent m e + 1) := by
  have hr := rounded_le acc he
  have hfirst : (shiftToTargetExponent Format.binary64 m e acc).2 = resultExponent m e := by
    show e + ((resultExponent m e - e).toNat : ℤ) = _
    omega
  -- the second shift
  have hcarry := carry_eq hr (le_resultExponent m e)
  have hround : roundWithAccuracy Format.binary64 s m e acc =
      ofMantissa s ((⟨rounded m e acc, false, false⟩ : ExtendedMantissa) >>>
        (resultExponent (rounded m e acc) (resultExponent m e) - resultExponent m e).toNat).mantissa
        (resultExponent m e +
          (resultExponent (rounded m e acc) (resultExponent m e) - resultExponent m e).toNat) := by
    rw [← hfirst]
    rfl
  rw [hround, hcarry, mantissa_shiftRight]
  show ofMantissa s (rounded m e acc / _) _ = _
  split_ifs with hlt
  · rw [pow_zero, Nat.div_one, Nat.cast_zero, add_zero]
  · have hcarried : rounded m e acc = 2 ^ 53 := le_antisymm hr (not_lt.mp hlt)
    rw [hcarried]
    rfl

/-- A rounded result is finite if its exponent is not too large after the significand may have
carried. -/
theorem isFinite_roundWithAccuracy (s : Sign) (m : ℕ) (e : ℤ) (acc : Accuracy)
    (he : e ≤ resultExponent m e) :
    (Float.Model.pack (roundWithAccuracy Format.binary64 s m e acc)).unpack.isFinite = true ↔
      rounded m e acc = 0 ∨ (rounded m e acc < 2 ^ 53 ∧ resultExponent m e ≤ 971) ∨
        resultExponent m e ≤ 970 := by
  rw [roundWithAccuracy_eq s acc he]
  split_ifs with hlt
  · rw [isFinite_pack_ofMantissa]
    omega
  · rw [isFinite_pack_ofMantissa]
    omega

/-! ## Overflow -/

/-- A result of at least this magnitude is rounded to an infinity. -/
def overflow : ℚ := 2 ^ 1024 - 2 ^ 970

/-- A rational that is rounded to a finite value. -/
def InRange (q : ℚ) : Prop := |q| < overflow

instance (q : ℚ) : Decidable (InRange q) := inferInstanceAs (Decidable (_ < _))

theorem overflow_eq : overflow = (2 ^ 54 - 1 : ℕ) * (2 : ℚ) ^ (970 : ℤ) := by
  have hsplit : (2 : ℚ) ^ 1024 = 2 ^ 54 * 2 ^ 970 := by rw [← pow_add]
  rw [overflow, hsplit, zpow_ofNat]
  generalize (2 : ℚ) ^ 970 = x
  push_cast
  ring

theorem overflow_le : overflow ≤ 2 ^ (1024 : ℤ) := by
  rw [overflow, zpow_ofNat]
  exact sub_le_self _ (by positivity)

theorem le_overflow : (2 : ℚ) ^ (1023 : ℤ) ≤ overflow := by
  rw [overflow_eq, show (1023 : ℤ) = 53 + 970 from rfl, zpow_add₀ (by norm_num)]
  exact mul_le_mul_of_nonneg_right (by norm_num) (zpow_pos (by norm_num) _).le

/-- The largest finite value is below the threshold. -/
theorem lt_overflow : ((2 ^ 53 - 1 : ℕ) : ℚ) * (2 : ℚ) ^ (971 : ℤ) < overflow := by
  rw [overflow_eq, show (971 : ℤ) = 970 + 1 from rfl, zpow_add_one₀ (by norm_num)]
  have hpos : (0 : ℚ) < 2 ^ (970 : ℤ) := zpow_pos (by norm_num) _
  generalize (2 : ℚ) ^ (970 : ℤ) = x at hpos
  push_cast
  nlinarith

/-- The exact value is below the next power of two, -/
theorem lt_zpow_of_represents {v : ℚ} {m : ℕ} {e : ℤ} {acc : Accuracy}
    (hv : Represents v m e acc) : v < 2 ^ ((m.log2 : ℤ) + 1 + e) := by
  have hm : ((m + 1 : ℕ) : ℚ) ≤ ((2 ^ (m.log2 + 1) : ℕ) : ℚ) := by
    exact_mod_cast Nat.succ_le_of_lt Nat.lt_log2_self
  have hpos : (0 : ℚ) < 2 ^ e := zpow_pos (by norm_num) e
  calc v < (m + 1) * 2 ^ e := hv.le.2
    _ ≤ (2 ^ (m.log2 + 1) : ℕ) * 2 ^ e := by
      push_cast at hm ⊢
      exact mul_le_mul_of_nonneg_right hm hpos.le
    _ = 2 ^ ((m.log2 : ℤ) + 1 + e) := by
      rw [zpow_add₀ (by norm_num)]
      norm_cast

/-- and not below the last one. -/
theorem zpow_le_of_represents {v : ℚ} {m : ℕ} {e : ℤ} {acc : Accuracy} (hm : m ≠ 0)
    (hv : Represents v m e acc) : 2 ^ ((m.log2 : ℤ) + e) ≤ v := by
  have hm : ((2 ^ m.log2 : ℕ) : ℚ) ≤ (m : ℚ) := by
    exact_mod_cast Nat.log2_self_le hm
  have hpos : (0 : ℚ) < 2 ^ e := zpow_pos (by norm_num) e
  calc (2 : ℚ) ^ ((m.log2 : ℤ) + e) = (2 ^ m.log2 : ℕ) * 2 ^ e := by
        rw [zpow_add₀ (by norm_num)]
        norm_cast
    _ ≤ m * 2 ^ e := mul_le_mul_of_nonneg_right hm hpos.le
    _ ≤ v := hv.le.1

/-- The round bit of the largest significand when nothing was shifted out: the accuracy decides. -/
theorem roundBit_eq_false_iff {v : ℚ} {m : ℕ} {acc : Accuracy} (hv : Represents v m 971 acc)
    (htop : m = 2 ^ 53 - 1) :
    (ExtendedMantissa.ofMantissaAndAccuracy m acc).roundBit = false ↔ v < overflow := by
  have hpos : (0 : ℚ) < 2 ^ (971 : ℤ) := zpow_pos (by norm_num) _
  have hscale : overflow = ((m : ℚ) + 1 / 2) * 2 ^ (971 : ℤ) := by
    rw [overflow_eq, htop, show (971 : ℤ) = 970 + 1 from rfl, zpow_add_one₀ (by norm_num)]
    generalize (2 : ℚ) ^ (970 : ℤ) = x
    push_cast
    ring
  rw [hscale]
  cases acc with
  | exact =>
    refine iff_of_true rfl ?_
    rw [show v = m * 2 ^ (971 : ℤ) from hv]
    exact mul_lt_mul_of_pos_right (by linarith) hpos
  | inexact o =>
    cases o with
    | lt => exact iff_of_true rfl hv.2
    | eq => exact iff_of_false Bool.noConfusion (not_lt.mpr (le_of_eq (show v = _ from hv).symm))
    | gt => exact iff_of_false Bool.noConfusion hv.1.not_gt

/-- The same when bits were shifted out: they begin with a 1 from the middle of the last place
on. -/
theorem roundBit_shiftRight_eq_false_iff {v : ℚ} {m j : ℕ} {e : ℤ} {acc : Accuracy}
    (hv : Represents v m e acc) (he : (970 : ℤ) = j + e) (htop : m / 2 ^ j / 2 = 2 ^ 53 - 1) :
    (ExtendedMantissa.ofMantissaAndAccuracy m acc >>> (j + 1)).roundBit = false ↔
      v < overflow := by
  have hpos : (0 : ℚ) < 2 ^ e := zpow_pos (by norm_num) e
  have hscale : overflow = (((2 ^ 54 - 1) * 2 ^ j : ℕ) : ℚ) * 2 ^ e := by
    rw [overflow_eq, he, zpow_add₀ (by norm_num), ← mul_assoc]
    norm_cast
  rw [roundBit_shiftRight, mantissa_ofMantissaAndAccuracy, hscale]
  constructor
  · intro heven
    have hdiv : m / 2 ^ j < 2 ^ 54 - 1 := by
      have : m / 2 ^ j % 2 = 0 := by simpa using heven
      omega
    have hlt : m < (2 ^ 54 - 1) * 2 ^ j := (Nat.div_lt_iff_lt_mul (by positivity)).mp hdiv
    have hle : (m : ℚ) + 1 ≤ (((2 ^ 54 - 1) * 2 ^ j : ℕ) : ℚ) := by exact_mod_cast hlt
    exact hv.le.2.trans_le (mul_le_mul_of_nonneg_right hle hpos.le)
  · intro hv'
    by_contra hodd
    have hdiv : 2 ^ 54 - 1 ≤ m / 2 ^ j := by
      have : m / 2 ^ j % 2 ≠ 0 := by simpa using hodd
      omega
    have hle : (2 ^ 54 - 1) * 2 ^ j ≤ m := (Nat.le_div_iff_mul_le (by positivity)).mp hdiv
    have hle' : (((2 ^ 54 - 1) * 2 ^ j : ℕ) : ℚ) ≤ (m : ℚ) := by exact_mod_cast hle
    exact absurd hv' (not_lt.mpr ((mul_le_mul_of_nonneg_right hle' hpos.le).trans hv.le.1))

/-- The largest significand carries when the value is at or past the middle of its last place. -/
theorem rounded_carries_iff {v : ℚ} {m : ℕ} {e : ℤ} {acc : Accuracy} (hv : Represents v m e acc)
    (hresult : resultExponent m e = 971) (he : e ≤ 971)
    (htop : m / 2 ^ (971 - e).toNat = 2 ^ 53 - 1) :
    rounded m e acc < 2 ^ 53 ↔ v < overflow := by
  have h := roundedMantissa_eq
    (ExtendedMantissa.ofMantissaAndAccuracy m acc >>> (resultExponent m e - e).toNat)
  rw [mantissa_shiftRight, mantissa_ofMantissaAndAccuracy, hresult, htop] at h
  -- the largest significand is odd, so that the round bit alone decides
  have hbit := h.2.2 (by norm_num)
  have hlt : rounded m e acc < 2 ^ 53 ↔
      (ExtendedMantissa.ofMantissaAndAccuracy m acc >>> (971 - e).toNat).roundBit = false := by
    rw [← Bool.not_eq_true, ← hbit]
    have hrounded : rounded m e acc =
        (ExtendedMantissa.ofMantissaAndAccuracy m acc >>> (971 - e).toNat).roundedMantissa := by
      rw [← hresult]
      rfl
    rw [hrounded]
    omega
  rw [hlt]
  cases hk : (971 - e).toNat with
  | zero =>
    obtain rfl : e = 971 := by omega
    rw [hk, pow_zero, Nat.div_one] at htop
    exact roundBit_eq_false_iff hv htop
  | succ j =>
    rw [hk, pow_succ, ← Nat.div_div_eq_div_mul] at htop
    exact roundBit_shiftRight_eq_false_iff hv (by omega) htop

/-- A value whose significand is below the largest one is below the threshold. -/
theorem lt_overflow_of_lt {v : ℚ} {m : ℕ} {e : ℤ} {acc : Accuracy} (hv : Represents v m e acc)
    (he : e ≤ 971) (hlt : m / 2 ^ (971 - e).toNat < 2 ^ 53 - 1) : v < overflow := by
  have hle : m + 1 ≤ (2 ^ 53 - 1) * 2 ^ (971 - e).toNat :=
    (Nat.div_lt_iff_lt_mul (by positivity)).mp hlt
  have hle' : (m : ℚ) + 1 ≤ (2 ^ 53 - 1 : ℕ) * 2 ^ (971 - e).toNat := by exact_mod_cast hle
  have hpos : (0 : ℚ) < 2 ^ e := zpow_pos (by norm_num) e
  calc v < (m + 1) * 2 ^ e := hv.le.2
    _ ≤ ((2 ^ 53 - 1 : ℕ) * 2 ^ (971 - e).toNat) * 2 ^ e :=
      mul_le_mul_of_nonneg_right hle' hpos.le
    _ = (2 ^ 53 - 1 : ℕ) * 2 ^ (971 : ℤ) := by
      rw [mul_assoc, ← zpow_natCast, ← zpow_add₀ (by norm_num)]
      congr 2
      omega
    _ < overflow := lt_overflow

/-- **Overflow.** A rounded result is finite exactly when the exact one is below the overflow
threshold. -/
theorem isFinite_round_iff {v : ℚ} (s : Sign) {m : ℕ} {e : ℤ} {acc : Accuracy}
    (hv : Represents v m e acc) (he : e ≤ resultExponent m e) :
    (Float.Model.pack (roundWithAccuracy Format.binary64 s m e acc)).unpack.isFinite = true ↔
      v < overflow := by
  rw [isFinite_roundWithAccuracy s m e acc he]
  have hbounds := rounded_bounds m e acc
  have hpow : ∀ {i j : ℤ}, i ≤ j → (2 : ℚ) ^ i ≤ 2 ^ j := fun h =>
    zpow_le_zpow_right₀ (by norm_num) h
  have hexp := resultExponent_eq m e
  rcases lt_trichotomy (resultExponent m e) 971 with hlt | heq | hgt
  · -- well below the threshold nothing is too large
    refine iff_of_true (Or.inr (Or.inr (by omega))) ?_
    calc v < 2 ^ ((m.log2 : ℤ) + 1 + e) := lt_zpow_of_represents hv
      _ ≤ 2 ^ (1023 : ℤ) := hpow (by omega)
      _ ≤ overflow := le_overflow
  · have hshift : m.log2 = 52 + (971 - e).toNat := by omega
    have hmantissa := div_lt_of_log2_le (le_of_eq hshift)
    rw [heq] at hbounds
    by_cases htop : m / 2 ^ (971 - e).toNat = 2 ^ 53 - 1
    · rw [← rounded_carries_iff hv heq (by omega) htop, heq]
      omega
    · -- below the largest significand nothing carries
      exact iff_of_true (by omega) (lt_overflow_of_lt hv (by omega) (by omega))
  · -- and well above it everything is
    have hm : m ≠ 0 := by
      rintro rfl
      rw [Nat.log2_zero] at hexp
      omega
    have hge : overflow ≤ v := by
      calc overflow ≤ 2 ^ (1024 : ℤ) := overflow_le
        _ ≤ 2 ^ ((m.log2 : ℤ) + e) := hpow (by omega)
        _ ≤ v := zpow_le_of_represents hm hv
    refine iff_of_false ?_ (not_lt.mpr hge)
    have hpositive : 0 < m / 2 ^ (resultExponent m e - e).toNat := by
      apply Nat.div_pos _ (by positivity)
      calc 2 ^ (resultExponent m e - e).toNat ≤ 2 ^ m.log2 :=
            Nat.pow_le_pow_right (by norm_num) (by omega)
        _ ≤ m := Nat.log2_self_le hm
    omega

end Binary64

end Foundation
