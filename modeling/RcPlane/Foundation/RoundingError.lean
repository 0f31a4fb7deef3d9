import RcPlane.Foundation.Binary64

/-!
# Rounding errors of doubles

A finite rounded result differs from the exact one by less than a unit of the last place. A
significand that was rounded has 53 bits or belongs to a subnormal number, so that packing it loses
nothing, and the exact value lies within the last place that was kept.

## Main definitions

* `Canonical`: what unpacking returns
* `ulp`: what a rounded result may differ by

## Main results

* `unpack_pack`: a canonical value is packed without loss
* `unpackedValue_roundWithAccuracy`: the value of a rounded result
* `abs_round_sub_le`: the error of a rounded result
-/

namespace Foundation

namespace Binary64

open Float.Model Float.Model.UnpackedFloat

/-! ## Packing a canonical value -/

theorem unpackSign_packComponents {spec : Format} {sign : Sign}
    {exponent : BitVec spec.exponentBits} {mantissa : BitVec spec.mantissaBitsWithoutImplicit} :
    unpackSign (packComponents spec sign exponent mantissa) = sign.toBitVec := by
  ext i hi
  obtain rfl : i = 0 := by omega
  simp [unpackSign, packComponents, BitVec.getLsbD_eq_getElem, BitVec.getLsbD_append,
    BitVec.getElem_append]

section Components

variable (s : Sign) {exponent : BitVec Format.binary64.exponentBits}
  {mantissa : BitVec Format.binary64.mantissaBitsWithoutImplicit}

theorem ofBitVec_toBitVec : Sign.ofBitVec s.toBitVec = s := by cases s <;> rfl

/-- The components of a normal number. -/
theorem unpack_normal (hones : exponent ≠ -1#_) (hzero : exponent ≠ 0#_) :
    UnpackedFloat.unpack Format.binary64 (packComponents Format.binary64 s exponent mantissa) =
      .finite s (2 ^ 52 + mantissa.toNat) (exponent.toNat - 1075) (by positivity) := by
  have hbias : ((Format.binary64.exponentBias : ℕ) : ℤ) +
    (Format.binary64.mantissaBitsWithoutImplicit : ℕ) = 1075 := by decide
  unfold UnpackedFloat.unpack
  simp only [unpackExponent_packComponents, unpackMantissa_packComponents,
    unpackSign_packComponents, ofBitVec_toBitVec, hbias, if_neg hones, if_neg hzero]
  congr 1
  rw [BitVec.toNat_append, ← Nat.shiftLeft_add_eq_or_of_lt mantissa.isLt]
  rfl

/-- The components of a subnormal number. -/
theorem unpack_subnormal (hzero : mantissa ≠ 0#_) (hpos : 0 < mantissa.toNat) :
    UnpackedFloat.unpack Format.binary64 (packComponents Format.binary64 s 0#_ mantissa) =
      .finite s mantissa.toNat (-1074) hpos := by
  have hbias : ((Format.binary64.exponentBias : ℕ) : ℤ) +
    (Format.binary64.mantissaBitsWithoutImplicit : ℕ) = 1075 := by decide
  have hones : (0#_ : BitVec Format.binary64.exponentBits) ≠ -1#_ := by decide
  unfold UnpackedFloat.unpack
  simp only [unpackExponent_packComponents, unpackMantissa_packComponents,
    unpackSign_packComponents, ofBitVec_toBitVec, hbias, if_neg hones, dif_neg hzero]
  rfl

end Components

/-- A finite value in the form that unpacking returns is packed without loss. -/
theorem unpack_pack (s : Sign) {m : ℕ} {e : ℤ} (hm : 0 < m) (hlt : m < 2 ^ 53) (hmin : -1074 ≤ e)
    (hmax : e ≤ 971) (hcanon : 2 ^ 52 ≤ m ∨ e = -1074) :
    (Float.Model.pack (.finite s m e hm)).unpack = .finite s m e hm := by
  have hbias : ((Format.binary64.exponentBias : ℕ) : ℤ) +
    (Format.binary64.mantissaBitsWithoutImplicit : ℕ) = 1075 := by decide
  show UnpackedFloat.unpack Format.binary64 (UnpackedFloat.pack Format.binary64
    (.finite s m e hm)) = _
  unfold UnpackedFloat.pack
  simp only [add_assoc, hbias]
  have hlow : m.log2 + 1 = Format.binary64.mantissaBits ↔ 2 ^ 52 ≤ m := by
    show m.log2 + 1 = 53 ↔ _
    rw [← Nat.le_log2 hm.ne']
    have h : m.log2 < 53 := (Nat.log2_lt hm.ne').mpr hlt
    omega
  have hin : ¬ 2 ^ Format.binary64.exponentBits ≤ (e + 1075).toNat + 1 := by
    show ¬ 2 ^ 11 ≤ _
    omega
  rw [if_neg hin]
  split_ifs with hnormal
  · -- the implicit bit is cut off and comes back
    have hle := hlow.mp hnormal
    have hexp : (BitVec.ofNat Format.binary64.exponentBits (e + 1075).toNat).toNat =
        (e + 1075).toNat := by
      rw [BitVec.toNat_ofNat]
      apply Nat.mod_eq_of_lt
      show _ < 2 ^ 11
      omega
    have hman : (BitVec.ofNat Format.binary64.mantissaBitsWithoutImplicit m).toNat =
        m - 2 ^ 52 := by
      rw [BitVec.toNat_ofNat]
      show m % 2 ^ 52 = _
      omega
    rw [unpack_normal]
    · congr 1
      · rw [hman]
        omega
      · rw [hexp]
        omega
    · intro h
      have h' : (e + 1075).toNat = 2047 := by
        rw [← hexp, h]
        rfl
      omega
    · intro h
      have h' : (e + 1075).toNat = 0 := by
        rw [← hexp, h]
        rfl
      omega
  · obtain rfl : e = -1074 := hcanon.resolve_left fun h => hnormal (hlow.mpr h)
    have hman : (BitVec.ofNat Format.binary64.mantissaBitsWithoutImplicit m).toNat = m := by
      rw [BitVec.toNat_ofNat]
      apply Nat.mod_eq_of_lt
      show m < 2 ^ 52
      exact not_le.mp fun h => hnormal (hlow.mpr h)
    rw [unpack_subnormal s (fun h => hm.ne' (by rw [← hman, h]; rfl)) (by rw [hman]; exact hm)]
    congr 1

/-- The form that unpacking returns. -/
def Canonical : UnpackedFloat → Prop
  | .finite _ m e _ => m < 2 ^ 53 ∧ -1074 ≤ e ∧ e ≤ 971 ∧ (2 ^ 52 ≤ m ∨ e = -1074)
  | _ => True

theorem canonical (x : Float) : Canonical x.toModel.unpack := by
  cases h : x.toModel.unpack with
  | finite s m e hm => exact canonical_unpack _ h
  | _ => trivial

/-- It is packed without loss. -/
theorem Canonical.unpack_pack {p : UnpackedFloat} (h : Canonical p) :
    (Float.Model.pack p).unpack = p := by
  cases p with
  | notANumber => rfl
  | infinity s => cases s <;> rfl
  | zero s => cases s <;> rfl
  | finite s m e hm => exact Binary64.unpack_pack s hm h.1 h.2.1 h.2.2.1 h.2.2.2

/-! ## The rounded value -/

/-- A significand that was cut off to its 53 bits is canonical. -/
theorem normal_of_le_resultExponent {m : ℕ} {e : ℤ} (he : e ≤ resultExponent m e) :
    2 ^ 52 ≤ m / 2 ^ (resultExponent m e - e).toNat ∨ resultExponent m e = -1074 := by
  have hexp := resultExponent_eq m e
  by_cases hmin : resultExponent m e = -1074
  · exact Or.inr hmin
  · left
    have hshift : m.log2 = 52 + (resultExponent m e - e).toNat := by omega
    have hm : m ≠ 0 := by
      rintro rfl
      rw [Nat.log2_zero] at hshift
      omega
    rw [Nat.le_div_iff_mul_le (by positivity), ← pow_add, ← hshift]
    exact Nat.log2_self_le hm

theorem unpackedValue_pack_ofMantissa (s : Sign) {m : ℕ} {e : ℤ} (hlt : m < 2 ^ 53)
    (hmin : -1074 ≤ e) (hmax : e ≤ 971) (hcanon : 2 ^ 52 ≤ m ∨ e = -1074) :
    unpackedValue (Float.Model.pack (ofMantissa s m e)).unpack = (s.apply m : ℤ) * 2 ^ e := by
  rw [ofMantissa]
  split_ifs with hzero
  · rw [hzero]
    cases s
    · exact (zero_mul _).symm
    · exact (zero_mul _).symm
  · rw [unpack_pack s _ hlt hmin hmax hcanon]
    rfl

/-- The value of a rounded result that is finite. -/
theorem unpackedValue_roundWithAccuracy (s : Sign) {m : ℕ} {e : ℤ} (acc : Accuracy)
    (he : e ≤ resultExponent m e)
    (hfinite : (Float.Model.pack (roundWithAccuracy Format.binary64 s m e acc)).unpack.isFinite =
      true) :
    unpackedValue (Float.Model.pack (roundWithAccuracy Format.binary64 s m e acc)).unpack =
      (s.apply (rounded m e acc) : ℤ) * 2 ^ resultExponent m e := by
  have hmin := le_resultExponent m e
  have hcanon := normal_of_le_resultExponent he
  have hbounds := rounded_bounds m e acc
  rw [isFinite_roundWithAccuracy s m e acc he] at hfinite
  rw [roundWithAccuracy_eq s acc he]
  rcases (rounded_le acc he).lt_or_eq with hlt | hcarried
  · rw [if_pos hlt]
    by_cases hmax : resultExponent m e ≤ 971
    · exact unpackedValue_pack_ofMantissa s hlt hmin hmax (by omega)
    · omega
  · rw [if_neg (by omega), unpackedValue_pack_ofMantissa s (by norm_num) (by omega) (by omega)
      (Or.inl le_rfl), hcarried, zpow_add_one₀ (by norm_num)]
    cases s
    · simp only [Sign.apply]
      push_cast
      ring
    · simp only [Sign.apply]
      push_cast
      ring

/-- How far a rounded value may be from the exact one: a unit in the last place of a normal number,
or the smallest subnormal one. -/
def ulp (v : ℚ) : ℚ := |v| / 2 ^ 52 + 2 ^ (-1074 : ℤ)

/-- The last place of a result is small. -/
theorem zpow_resultExponent_le {v : ℚ} {m : ℕ} {e : ℤ} {acc : Accuracy}
    (hv : Represents v m e acc) (he : e ≤ resultExponent m e) :
    (2 : ℚ) ^ resultExponent m e ≤ ulp v := by
  rcases normal_of_le_resultExponent he with hnormal | hmin
  · have hv0 : 0 ≤ v := le_trans (by positivity) hv.le.1
    have hmul : 2 ^ 52 * 2 ^ (resultExponent m e - e).toNat ≤ m :=
      (Nat.le_div_iff_mul_le (by positivity)).mp hnormal
    have hle : (2 : ℚ) ^ 52 * 2 ^ resultExponent m e ≤ v := by
      calc (2 : ℚ) ^ 52 * 2 ^ resultExponent m e
          = (2 ^ 52 * 2 ^ (resultExponent m e - e).toNat : ℕ) * 2 ^ e := by
            push_cast
            rw [mul_assoc, ← zpow_natCast _ (resultExponent m e - e).toNat,
              ← zpow_add₀ (by norm_num)]
            congr 2
            omega
        _ ≤ m * 2 ^ e := by
            have hcast : ((2 ^ 52 * 2 ^ (resultExponent m e - e).toNat : ℕ) : ℚ) ≤ (m : ℚ) := by
              exact_mod_cast hmul
            exact mul_le_mul_of_nonneg_right hcast (zpow_pos (by norm_num) e).le
        _ ≤ v := hv.le.1
    have htiny : (0 : ℚ) < 2 ^ (-1074 : ℤ) := zpow_pos (by norm_num) _
    rw [ulp, abs_of_nonneg hv0]
    have hdiv : (2 : ℚ) ^ resultExponent m e ≤ v / 2 ^ 52 := by
      rw [le_div_iff₀ (by positivity), mul_comm]
      exact hle
    linarith
  · rw [hmin, ulp]
    have hnonneg : 0 ≤ |v| / 2 ^ 52 := by positivity
    linarith

/-- The exact value lies in the last place that was cut off. -/
theorem floor_represents {v : ℚ} {m : ℕ} {e : ℤ} {acc : Accuracy} (hv : Represents v m e acc)
    (k : ℕ) : ((m / 2 ^ k : ℕ) : ℚ) * 2 ^ (k + e) ≤ v ∧
      v < ((m / 2 ^ k : ℕ) + 1) * 2 ^ (k + e) := by
  have hpos : (0 : ℚ) < 2 ^ e := zpow_pos (by norm_num) e
  have hpow : (2 : ℚ) ^ (k + e) = 2 ^ k * 2 ^ e := by
    rw [zpow_add₀ (by norm_num), zpow_natCast]
  have hlow : m / 2 ^ k * 2 ^ k ≤ m := Nat.div_mul_le_self m (2 ^ k)
  have hhigh : m < (m / 2 ^ k + 1) * 2 ^ k :=
    (Nat.div_lt_iff_lt_mul (by positivity)).mp (Nat.lt_succ_self _)
  have hlow' : ((m / 2 ^ k : ℕ) : ℚ) * 2 ^ k ≤ m := by exact_mod_cast hlow
  have hhigh' : (m : ℚ) + 1 ≤ ((m / 2 ^ k : ℕ) + 1) * 2 ^ k := by exact_mod_cast hhigh
  rw [hpow, ← mul_assoc, ← mul_assoc]
  constructor
  · exact (mul_le_mul_of_nonneg_right hlow' hpos.le).trans hv.le.1
  · exact hv.le.2.trans_le (mul_le_mul_of_nonneg_right hhigh' hpos.le)

/-- **Rounding.** A finite rounded result is within a unit of the last place of the exact one. -/
theorem abs_round_sub_le {v : ℚ} (s : Sign) {m : ℕ} {e : ℤ} {acc : Accuracy}
    (hv : Represents v m e acc) (he : e ≤ resultExponent m e)
    (hfinite : (Float.Model.pack (roundWithAccuracy Format.binary64 s m e acc)).unpack.isFinite =
      true) :
    |unpackedValue (Float.Model.pack (roundWithAccuracy Format.binary64 s m e acc)).unpack -
      (s.apply 1 : ℤ) * v| ≤ ulp v := by
  have hpos : (0 : ℚ) < 2 ^ resultExponent m e := zpow_pos (by norm_num) _
  obtain ⟨hlow, hhigh⟩ := floor_represents hv (resultExponent m e - e).toNat
  obtain ⟨hfloor, hceil⟩ := rounded_bounds m e acc
  have hexp : ((resultExponent m e - e).toNat : ℤ) + e = resultExponent m e := by omega
  rw [hexp] at hlow hhigh
  have hfloor' : ((m / 2 ^ (resultExponent m e - e).toNat : ℕ) : ℚ) ≤ rounded m e acc := by
    exact_mod_cast hfloor
  have hceil' : (rounded m e acc : ℚ) ≤ (m / 2 ^ (resultExponent m e - e).toNat : ℕ) + 1 := by
    exact_mod_cast hceil
  have habs : |(rounded m e acc : ℚ) * 2 ^ resultExponent m e - v| ≤ 2 ^ resultExponent m e := by
    rw [abs_le]
    constructor <;> nlinarith
  rw [unpackedValue_roundWithAccuracy s acc he hfinite]
  refine le_trans (le_of_eq ?_) (habs.trans (zpow_resultExponent_le hv he))
  cases s
  · simp only [Sign.apply]
    rw [← abs_neg]
    push_cast
    congr 1
    ring
  · simp only [Sign.apply]
    push_cast
    congr 1
    ring

end Binary64

end Foundation
