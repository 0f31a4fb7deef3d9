import Mathlib.Data.Rat.Floor
import Mathlib.Algebra.Order.Floor.Ring
import Mathlib.Tactic.Linarith
import Mathlib.Tactic.NormNum

/-!
# Narrowing conversions

Truncation of rationals toward zero, truncating integer division, and the reduction of an
integer to eight bits, signed or unsigned, in the form linear arithmetic can use.

## Main definitions

* `truncate x`: the rational `x` truncated toward zero
* `roundToBits p n`, `doubleOfInt n`: a natural number rounded to `p` bits, an integer to a
  `double`

## Main results

* `truncate_intCast`, `truncate_mono`, `truncate_neg`: truncation fixes the integers, is
  monotone and odd
* `int8_ofInt_emod`, `int8_ofInt_cases`, `uint8_ofInt_toNat`: the byte of an integer
* `tdiv_of_nonneg`, `tdiv_of_nonpos`: truncating division by a positive number
* `doubleOfInt_eq_iff`: rounding an integer to a `double` reaches a small integer from itself only
-/

namespace Foundation

/-! ## Truncation -/

/-- Truncation toward zero. -/
def truncate (x : ℚ) : ℤ := if 0 ≤ x then ⌊x⌋ else ⌈x⌉

@[simp] theorem truncate_intCast (n : ℤ) : truncate (n : ℚ) = n := by
  unfold truncate
  split_ifs <;> simp

theorem truncate_of_nonneg {x : ℚ} (h : 0 ≤ x) : truncate x = ⌊x⌋ := if_pos h

theorem truncate_of_nonpos {x : ℚ} (h : x ≤ 0) : truncate x = ⌈x⌉ := by
  rcases h.lt_or_eq with h | rfl
  · exact if_neg (not_le.mpr h)
  · simp [truncate]

theorem truncate_nonneg {x : ℚ} (h : 0 ≤ x) : 0 ≤ truncate x := by
  rw [truncate_of_nonneg h]
  exact Int.floor_nonneg.mpr h

theorem truncate_neg (x : ℚ) : truncate (-x) = -truncate x := by
  rcases le_total 0 x with h | h
  · rw [truncate_of_nonneg h, truncate_of_nonpos (by linarith), Int.ceil_neg]
  · rw [truncate_of_nonpos h, truncate_of_nonneg (by linarith), Int.floor_neg]

theorem truncate_mono {x y : ℚ} (h : x ≤ y) : truncate x ≤ truncate y := by
  rcases le_total 0 x with hx | hx
  · rw [truncate_of_nonneg hx, truncate_of_nonneg (hx.trans h)]
    exact Int.floor_mono h
  · rcases le_total 0 y with hy | hy
    · have hl : truncate x ≤ 0 := by
        rw [truncate_of_nonpos hx, Int.ceil_le]
        exact_mod_cast hx
      exact hl.trans (truncate_nonneg hy)
    · rw [truncate_of_nonpos hx, truncate_of_nonpos hy]
      exact Int.ceil_mono h

/-- A rational between two integers is truncated to an integer between them. -/
theorem truncate_mem_of_mem {x : ℚ} {a b : ℤ} (ha : (a : ℚ) ≤ x) (hb : x ≤ b) :
    a ≤ truncate x ∧ truncate x ≤ b :=
  ⟨by simpa using truncate_mono ha, by simpa using truncate_mono hb⟩

/-- Truncation does not move away from zero. -/
theorem abs_truncate_le (x : ℚ) : |(truncate x : ℚ)| ≤ |x| := by
  rcases le_total 0 x with h | h
  · have h0 : (0 : ℤ) ≤ ⌊x⌋ := Int.floor_nonneg.mpr h
    rw [truncate_of_nonneg h, abs_of_nonneg h, abs_of_nonneg (by exact_mod_cast h0)]
    exact Int.floor_le x
  · have h0 : ⌈x⌉ ≤ (0 : ℤ) := Int.ceil_le.mpr (by exact_mod_cast h)
    rw [truncate_of_nonpos h, abs_of_nonpos h, abs_of_nonpos (by exact_mod_cast h0)]
    exact neg_le_neg (Int.le_ceil x)

/-! ## Truncating division -/

theorem tdiv_of_nonneg {a b : ℤ} (ha : 0 ≤ a) : a.tdiv b = a / b :=
  Int.tdiv_eq_ediv_of_nonneg ha

theorem tdiv_of_nonpos {a b : ℤ} (ha : a ≤ 0) : a.tdiv b = -(-a / b) := by
  rw [← Int.tdiv_eq_ediv_of_nonneg (by omega : 0 ≤ -a), Int.neg_tdiv, neg_neg]

/-- The quotient of two integers, truncated, is their truncating division. -/
theorem truncate_div (a : ℤ) {b : ℕ} (hb : 0 < b) : truncate ((a : ℚ) / b) = a.tdiv b := by
  have hb' : (0 : ℚ) < b := by exact_mod_cast hb
  have key : ∀ n : ℤ, 0 ≤ n → truncate ((n : ℚ) / b) = n.tdiv b := by
    intro n hn
    have hq : (0 : ℚ) ≤ (n : ℚ) / b := div_nonneg (by exact_mod_cast hn) hb'.le
    rw [truncate_of_nonneg hq, tdiv_of_nonneg hn, Rat.floor_intCast_div_natCast]
  rcases le_total 0 a with ha | ha
  · exact key a ha
  · have h := key (-a) (by omega)
    rw [Int.cast_neg, neg_div, truncate_neg, Int.neg_tdiv] at h
    exact neg_injective h

/-! ## Rounding to a significand -/

/-- A natural number rounded to the nearest one with `p` significant bits, a tie to the one whose
last bit is zero. -/
def roundToBits (p n : ℕ) : ℕ :=
  if n < 2 ^ p then n
  else
    -- the bits that are cut off
    let e := n.log2 + 1 - p
    if 2 * (n % 2 ^ e) < 2 ^ e ∨ (2 * (n % 2 ^ e) = 2 ^ e ∧ n / 2 ^ e % 2 = 0) then
      n / 2 ^ e * 2 ^ e
    else (n / 2 ^ e + 1) * 2 ^ e

theorem roundToBits_of_lt {p n : ℕ} (h : n < 2 ^ p) : roundToBits p n = n := if_pos h

/-- Rounding does not leave the binary order of magnitude. -/
theorem two_pow_log2_le_roundToBits {p n : ℕ} (hp : 0 < p) (h : 2 ^ p ≤ n) :
    2 ^ n.log2 ≤ roundToBits p n := by
  have hn : n ≠ 0 := by
    have := Nat.two_pow_pos p
    omega
  have hlog : p ≤ n.log2 := (Nat.le_log2 hn).mpr h
  have hq : 2 ^ (n.log2 - (n.log2 + 1 - p)) ≤ n / 2 ^ (n.log2 + 1 - p) := by
    rw [Nat.le_div_iff_mul_le (Nat.two_pow_pos _), ← pow_add,
      Nat.sub_add_cancel (by omega : n.log2 + 1 - p ≤ n.log2)]
    exact Nat.log2_self_le hn
  have hlow : 2 ^ n.log2 ≤ n / 2 ^ (n.log2 + 1 - p) * 2 ^ (n.log2 + 1 - p) :=
    calc 2 ^ n.log2
        = 2 ^ (n.log2 - (n.log2 + 1 - p)) * 2 ^ (n.log2 + 1 - p) := by
          rw [← pow_add, Nat.sub_add_cancel (by omega)]
      _ ≤ n / 2 ^ (n.log2 + 1 - p) * 2 ^ (n.log2 + 1 - p) := Nat.mul_le_mul_right _ hq
  rw [roundToBits, if_neg (by omega)]
  dsimp only
  split_ifs
  · exact hlow
  · exact hlow.trans (Nat.mul_le_mul_right _ (Nat.le_succ _))

/-- An integer converted to `double`. -/
def doubleOfInt (n : ℤ) : ℚ := n.sign * roundToBits 53 n.natAbs

/-- Rounding to a `double` reaches an integer below `2 ^ 53` from that integer only. -/
theorem doubleOfInt_eq_iff {n k : ℤ} (hk : k.natAbs < 2 ^ 53) : doubleOfInt n = k ↔ n = k := by
  have hsmall : ∀ m : ℤ, m.natAbs < 2 ^ 53 → doubleOfInt m = m := by
    intro m hm
    rw [doubleOfInt, roundToBits_of_lt hm, ← Int.cast_natCast, ← Int.cast_mul,
      Int.sign_mul_natAbs]
  constructor
  · intro h
    by_cases hn : n.natAbs < 2 ^ 53
    · rw [hsmall n hn] at h
      exact_mod_cast h
    · -- a larger integer stays at least as large
      have hlog : 2 ^ 53 ≤ 2 ^ n.natAbs.log2 :=
        Nat.pow_le_pow_right (by decide) ((Nat.le_log2 (by omega)).mpr (by omega))
      have hround := hlog.trans (two_pow_log2_le_roundToBits (p := 53) (by decide) (by omega))
      have hz : n.sign * (roundToBits 53 n.natAbs : ℤ) = k := by
        unfold doubleOfInt at h
        exact_mod_cast h
      have habs := congrArg Int.natAbs hz
      rw [Int.natAbs_mul, Int.natAbs_sign_of_ne_zero (by omega), Int.natAbs_natCast] at habs
      omega
  · rintro rfl
    exact hsmall n hk

/-! ## Eight bits -/

theorem int8_toInt_bounds (i : Int8) : -128 ≤ i.toInt ∧ i.toInt ≤ 127 := by
  have h₁ := i.le_toInt
  have h₂ := i.toInt_lt
  omega

theorem uint8_toNat_le (b : UInt8) : b.toNat ≤ 255 := by
  have := b.toNat_lt
  omega

/-- An integer of signed byte range is its own signed byte. -/
theorem int8_ofInt_of_mem {n : ℤ} (h₁ : -128 ≤ n) (h₂ : n ≤ 127) : (Int8.ofInt n).toInt = n :=
  Int8.toInt_ofInt_of_le (by omega) (by omega)

/-- The signed byte of an integer differs from it by a multiple of 256. -/
theorem int8_ofInt_emod (n : ℤ) :
    -128 ≤ (Int8.ofInt n).toInt ∧ (Int8.ofInt n).toInt ≤ 127 ∧
      (Int8.ofInt n).toInt % 256 = n % 256 := by
  have hb := int8_toInt_bounds (Int8.ofInt n)
  refine ⟨hb.1, hb.2, ?_⟩
  rw [Int8.toInt_ofInt]
  exact Int.bmod_emod

/-- Near the range of a signed byte, an integer wraps at most once. -/
theorem int8_ofInt_cases {n : ℤ} (h₁ : -384 ≤ n) (h₂ : n ≤ 383) :
    (-128 ≤ n ∧ n ≤ 127 ∧ (Int8.ofInt n).toInt = n) ∨
      (127 < n ∧ (Int8.ofInt n).toInt = n - 256) ∨
      (n < -128 ∧ (Int8.ofInt n).toInt = n + 256) := by
  obtain ⟨hr₁, hr₂, hr⟩ := int8_ofInt_emod n
  omega

/-- The unsigned byte of an integer is its residue modulo 256. -/
theorem uint8_ofInt_toNat (n : ℤ) : ((UInt8.ofInt n).toNat : ℤ) = n % 256 := by
  have h₁ : 0 ≤ n % 256 := Int.emod_nonneg _ (by decide)
  have h₂ : n % 256 < 256 := Int.emod_lt_of_pos _ (by decide)
  rw [UInt8.ofInt, UInt8.toNat_ofNat']
  omega

/-- The two bytes of an integer are one byte, read twice. -/
theorem toInt8_ofInt (n : ℤ) : (UInt8.ofInt n).toInt8 = Int8.ofInt n := by
  have hn : (0 : ℤ) ≤ n % 2 ^ 8 := Int.emod_nonneg _ (by decide)
  rw [UInt8.ofInt, UInt8.toInt8_ofNat', ← Int8.ofInt_eq_ofNat, Int.toNat_of_nonneg hn]
  apply Int8.toInt_inj.mp
  have h₁ := int8_ofInt_emod (n % 2 ^ 8)
  have h₂ := int8_ofInt_emod n
  omega

end Foundation
