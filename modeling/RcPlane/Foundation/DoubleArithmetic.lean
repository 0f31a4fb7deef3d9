import Mathlib.Tactic.FieldSimp
import RcPlane.Foundation.RoundingError

/-!
# Double arithmetic

A sum, a difference, a product or a quotient of doubles is finite exactly when the operands are, no
divisor is zero, and the exact result on the values of the operands is below the overflow
threshold. It is then within a unit of the last place of the exact result.

## Main definitions

* `Rounds`: what is packed is a given number rounded
* `Bounded`: what an unpacked operand satisfies
* `dividend`, `quotientExponent`: what a quotient is computed from

## Main results

* `abs_value_le`: the largest finite value
* `isFinite_add`, `isFinite_sub`, `isFinite_mul`, `isFinite_div`: the four operations
* `abs_add_sub_le`, `abs_sub_sub_le`, `abs_mul_sub_le`, `abs_div_sub_le`: their errors
-/

namespace Foundation

namespace Binary64

open Float.Model Float.Model.UnpackedFloat

/-! ## Rounded numbers -/

/-- What is packed is a number rounded: it is finite unless the number is too large, and then close
to it. -/
structure Rounds (v : ℚ) (p : UnpackedFloat) : Prop where
  isFinite_iff : (Float.Model.pack p).unpack.isFinite = true ↔ InRange v
  abs_sub_le : (Float.Model.pack p).unpack.isFinite = true →
    |unpackedValue (Float.Model.pack p).unpack - v| ≤ ulp v

theorem ulp_abs (v : ℚ) : ulp |v| = ulp v := by rw [ulp, abs_abs, ulp]

theorem ulp_nonneg (v : ℚ) : 0 ≤ ulp v :=
  add_nonneg (by positivity) (zpow_pos (by norm_num) _).le

theorem apply_eq (s : Sign) (m : ℕ) : ((s.apply m : ℤ) : ℚ) = (s.apply 1 : ℤ) * m := by
  cases s <;> simp [Sign.apply]

theorem abs_apply (s : Sign) (m : ℕ) : |((s.apply m : ℤ) : ℚ)| = m := by
  cases s <;> simp [Sign.apply]

/-- A truncated significand is rounded to the number it represents. -/
theorem rounds_of_represents {v : ℚ} (s : Sign) {m : ℕ} {e : ℤ} {acc : Accuracy}
    (hv : Represents |v| m e acc) (hsign : (s.apply 1 : ℤ) * |v| = v)
    (he : e ≤ resultExponent m e) :
    Rounds v (roundWithAccuracy Format.binary64 s m e acc) := by
  refine ⟨isFinite_round_iff s hv he, fun hfinite => ?_⟩
  have h := abs_round_sub_le s hv he hfinite
  rwa [hsign, ulp_abs] at h

theorem log2_mul_two_pow {m : ℕ} (hm : m ≠ 0) (k : ℕ) : (m * 2 ^ k).log2 = m.log2 + k := by
  induction k with
  | zero => rw [pow_zero, Nat.mul_one, Nat.add_zero]
  | succ k ih =>
    rw [pow_succ, ← Nat.mul_assoc, Nat.mul_comm _ 2,
      Nat.log2_two_mul (Nat.mul_ne_zero hm (by positivity)), ih]
    rfl

theorem resultExponent_shiftLeft {m : ℕ} (hm : m ≠ 0) (e : ℤ) (k : ℕ) :
    resultExponent (m <<< k) (e - k) = resultExponent m e := by
  rw [resultExponent_eq, resultExponent_eq, Nat.shiftLeft_eq, log2_mul_two_pow hm]
  push_cast
  congr 1
  ring

/-- Rounding an integer times a power of two. -/
theorem rounds_round (s : Sign) {m : ℕ} (hm : m ≠ 0) (e : ℤ) :
    Rounds ((s.apply m : ℤ) * 2 ^ e) (UnpackedFloat.round Format.binary64 s m e) := by
  have hround : UnpackedFloat.round Format.binary64 s m e =
      roundWithAccuracy Format.binary64 s (m <<< (e - resultExponent m e).toNat)
        (e - (e - resultExponent m e).toNat) .exact := rfl
  have hpos : (0 : ℚ) < 2 ^ e := zpow_pos (by norm_num) e
  have habs : |((s.apply m : ℤ) : ℚ) * 2 ^ e| = m * 2 ^ e := by
    rw [abs_mul, abs_apply, abs_of_pos hpos]
  rw [hround]
  apply rounds_of_represents
  · show |_| = _
    rw [habs, Nat.shiftLeft_eq, zpow_sub₀ (by norm_num), zpow_natCast]
    push_cast
    field_simp
  · rw [habs, apply_eq s m, mul_assoc]
  · rw [resultExponent_shiftLeft hm]
    omega

/-- Zero is rounded to zero. -/
theorem rounds_zero (s : Sign) : Rounds 0 (.zero s) := by
  have hzero : InRange 0 := by
    rw [InRange, abs_zero]
    exact lt_of_lt_of_le (zpow_pos (by norm_num) _) le_overflow
  refine ⟨iff_of_true ?_ hzero, fun _ => ?_⟩
  · rw [isFinite_pack]
    trivial
  · have hvalue : unpackedValue (Float.Model.pack (.zero s)).unpack = 0 := by
      rw [Canonical.unpack_pack (show Canonical (.zero s) from trivial)]
      rfl
    rw [hvalue, sub_zero, abs_zero]
    exact ulp_nonneg 0

/-- Rounding a signed one. -/
theorem rounds_normalize (n : ℤ) (e : ℤ) (zeroSign : Sign) :
    Rounds (n * 2 ^ e) (UnpackedFloat.normalize Format.binary64 n e zeroSign) := by
  unfold UnpackedFloat.normalize
  split
  · next hlt =>
    have hneg : n < 0 := compare_lt_iff_lt.mp hlt
    have h := rounds_round .negative (m := (-n).toNat) (by omega) e
    have hcast : Sign.negative.apply (-n).toNat = n := by
      show -(((-n).toNat : ℕ) : ℤ) = n
      omega
    rwa [hcast] at h
  · next heq =>
    obtain rfl : n = 0 := compare_eq_iff_eq.mp heq
    rw [Int.cast_zero, zero_mul]
    exact rounds_zero zeroSign
  · next hgt =>
    have hpos : 0 < n := compare_gt_iff_gt.mp hgt
    have h := rounds_round .positive (m := n.toNat) (by omega) e
    have hcast : Sign.positive.apply n.toNat = n := by
      show ((n.toNat : ℕ) : ℤ) = n
      omega
    rwa [hcast] at h

theorem abs_unpackedValue {s : Sign} {m : ℕ} {e : ℤ} {hm : 0 < m} :
    |unpackedValue (.finite s m e hm)| = m * (2 : ℚ) ^ e := by
  rw [unpackedValue, abs_mul, abs_apply, abs_of_pos (zpow_pos (by norm_num) e)]

/-- The largest finite value. -/
theorem abs_value_le (x : Float) : |value x| ≤ (2 ^ 53 - 1 : ℕ) * (2 : ℚ) ^ (971 : ℤ) := by
  rw [value]
  cases h : x.toModel.unpack with
  | finite s m e hm =>
    obtain ⟨hlt, -, he, -⟩ := canonical_unpack _ h
    rw [abs_unpackedValue]
    have hle : (m : ℚ) ≤ (2 ^ 53 - 1 : ℕ) := by exact_mod_cast Nat.le_sub_one_of_lt hlt
    exact mul_le_mul hle (zpow_le_zpow_right₀ (by norm_num) he) (zpow_pos (by norm_num) e).le
      (Nat.cast_nonneg _)
  | _ =>
    show |(0 : ℚ)| ≤ _
    rw [abs_zero]
    exact mul_nonneg (Nat.cast_nonneg _) (zpow_pos (by norm_num) _).le

theorem inRange_value (x : Float) : InRange (value x) :=
  (abs_value_le x).trans_lt lt_overflow

/-- An integer scaled by a smaller power of two. -/
theorem decreaseExponent_eq (s : Sign) {m : ℕ} {e e' : ℤ} (h : e' ≤ e) :
    ((s.apply (decreaseExponent m e e').1 : ℤ) : ℚ) * (2 : ℚ) ^ e' =
      (s.apply m : ℤ) * (2 : ℚ) ^ e := by
  have hshift : (decreaseExponent m e e').1 = m * 2 ^ (e - e').toNat := Nat.shiftLeft_eq _ _
  have hpow : (2 : ℚ) ^ e = 2 ^ (e - e').toNat * 2 ^ e' := by
    rw [← zpow_natCast, ← zpow_add₀ (by norm_num)]
    congr 1
    omega
  rw [hshift, hpow]
  cases s
  · simp only [Sign.apply]
    push_cast
    ring
  · simp only [Sign.apply]
    push_cast
    ring

/-- An operand is rounded to itself. -/
theorem Canonical.rounds {p : UnpackedFloat} (h : Canonical p) (hfinite : p.isFinite = true)
    (hrange : InRange (unpackedValue p)) : Rounds (unpackedValue p) p := by
  rw [← h.unpack_pack] at hfinite
  refine ⟨iff_of_true hfinite hrange, fun _ => ?_⟩
  rw [h.unpack_pack, sub_self, abs_zero]
  exact ulp_nonneg _

/-- What is packed is not finite. -/
theorem not_isFinite_pack_notANumber :
    ¬ (Float.Model.pack .notANumber).unpack.isFinite = true := by
  rw [isFinite_pack]
  exact id

theorem not_isFinite_pack_infinity (s : Sign) :
    ¬ (Float.Model.pack (.infinity s)).unpack.isFinite = true := by
  rw [isFinite_pack]
  exact id

theorem unpackedValue_neg (p : UnpackedFloat) : unpackedValue p.neg = -unpackedValue p := by
  cases p with
  | finite s m e hm =>
    show (((-s).apply m : ℤ) : ℚ) * 2 ^ e = -((s.apply m : ℤ) * 2 ^ e)
    cases s
    · show (((m : ℤ) : ℤ) : ℚ) * 2 ^ e = -((-(m : ℤ) : ℤ) * 2 ^ e)
      push_cast
      ring
    · show ((-(m : ℤ) : ℤ) : ℚ) * 2 ^ e = -(((m : ℤ) : ℤ) * 2 ^ e)
      push_cast
      ring
  | _ => exact neg_zero.symm

theorem isFinite_neg (p : UnpackedFloat) : p.neg.isFinite = p.isFinite := by
  cases p <;> rfl

theorem Canonical.neg {p : UnpackedFloat} (h : Canonical p) : Canonical p.neg := by
  cases p <;> exact h

theorem unpackedSub_eq (p q : UnpackedFloat) :
    UnpackedFloat.sub Format.binary64 p q = UnpackedFloat.add Format.binary64 p q.neg := by
  cases p <;> cases q
  case finite.finite s m e hm s' m' e' hm' =>
    show UnpackedFloat.normalize Format.binary64 (s.apply _ - s'.apply _) _ _ =
      UnpackedFloat.normalize Format.binary64 (s.apply _ + (-s').apply _) _ _
    congr 1
    cases s'
    · show s.apply _ - -_ = s.apply _ + _
      exact sub_neg_eq_add _ _
    · rfl
  all_goals rfl

/-- The sum of operands that are not both finite. -/
theorem not_isFinite_pack_add {p q : UnpackedFloat}
    (h : ¬ (p.isFinite = true ∧ q.isFinite = true)) :
    ¬ (Float.Model.pack (UnpackedFloat.add Format.binary64 p q)).unpack.isFinite = true := by
  cases p with
  | notANumber => exact not_isFinite_pack_notANumber
  | infinity s =>
    cases q with
    | notANumber => exact not_isFinite_pack_notANumber
    | infinity s' =>
      -- opposite infinities have no sum
      cases s <;> cases s'
      · exact not_isFinite_pack_infinity _
      · exact not_isFinite_pack_notANumber
      · exact not_isFinite_pack_notANumber
      · exact not_isFinite_pack_infinity _
    | zero s' => exact not_isFinite_pack_infinity s
    | finite s' m e hm => exact not_isFinite_pack_infinity s
  | zero s =>
    cases q with
    | notANumber => exact not_isFinite_pack_notANumber
    | infinity s' => exact not_isFinite_pack_infinity s'
    | zero s' => exact absurd ⟨rfl, rfl⟩ h
    | finite s' m e hm => exact absurd ⟨rfl, rfl⟩ h
  | finite s m e hm =>
    cases q with
    | notANumber => exact not_isFinite_pack_notANumber
    | infinity s' => exact not_isFinite_pack_infinity s'
    | zero s' => exact absurd ⟨rfl, rfl⟩ h
    | finite s' m' e' hm' => exact absurd ⟨rfl, rfl⟩ h

/-- The sum of finite operands is their exact sum rounded. -/
theorem rounds_add {p q : UnpackedFloat} (hp : Canonical p) (hq : Canonical q)
    (hrange : InRange (unpackedValue p)) (hrange' : InRange (unpackedValue q))
    (hfinite : p.isFinite = true) (hfinite' : q.isFinite = true) :
    Rounds (unpackedValue p + unpackedValue q) (UnpackedFloat.add Format.binary64 p q) := by
  cases p with
  | notANumber => exact absurd hfinite Bool.false_ne_true
  | infinity s => exact absurd hfinite Bool.false_ne_true
  | zero s =>
    have hsum : unpackedValue (.zero s) + unpackedValue q = unpackedValue q := zero_add _
    rw [hsum]
    cases q with
    | notANumber => exact absurd hfinite' Bool.false_ne_true
    | infinity s' => exact absurd hfinite' Bool.false_ne_true
    | zero s' => cases s <;> cases s' <;> exact rounds_zero _
    | finite s' m e hm => exact hq.rounds hfinite' hrange'
  | finite s m e hm =>
    cases q with
    | notANumber => exact absurd hfinite' Bool.false_ne_true
    | infinity s' => exact absurd hfinite' Bool.false_ne_true
    | zero s' =>
      have hsum : unpackedValue (.finite s m e hm) + unpackedValue (.zero s') =
        unpackedValue (.finite s m e hm) := add_zero _
      rw [hsum]
      exact hp.rounds hfinite hrange
    | finite s' m' e' hm' =>
      -- both integers are scaled by the smaller power of two
      have hsum : unpackedValue (.finite s m e hm) + unpackedValue (.finite s' m' e' hm') =
          ((s.apply (decreaseExponent m e (min e e')).1 +
            s'.apply (decreaseExponent m' e' (min e e')).1 : ℤ) : ℚ) * 2 ^ min e e' := by
        rw [Int.cast_add, add_mul, decreaseExponent_eq s (min_le_left e e'),
          decreaseExponent_eq s' (min_le_right e e')]
        rfl
      rw [hsum]
      exact rounds_normalize _ _ _

/-- An operation on operands is finite exactly when they are and its exact result is in range. -/
theorem isFinite_iff_of_rounds {p q r : UnpackedFloat} {v : ℚ}
    (hrounds : p.isFinite = true → q.isFinite = true → Rounds v r)
    (hnot : ¬ (p.isFinite = true ∧ q.isFinite = true) →
      ¬ (Float.Model.pack r).unpack.isFinite = true) :
    (Float.Model.pack r).unpack.isFinite = true ↔
      p.isFinite = true ∧ q.isFinite = true ∧ InRange v := by
  constructor
  · intro h
    obtain ⟨hp, hq⟩ := not_not.mp fun hpq => hnot hpq h
    exact ⟨hp, hq, (hrounds hp hq).isFinite_iff.mp h⟩
  · rintro ⟨hp, hq, hv⟩
    exact (hrounds hp hq).isFinite_iff.mpr hv

/-- The sum of doubles. -/
theorem add_rounds (x y : Float) (hx : x.isFinite = true) (hy : y.isFinite = true) :
    Rounds (value x + value y)
      (UnpackedFloat.add Format.binary64 x.toModel.unpack y.toModel.unpack) :=
  rounds_add (canonical x) (canonical y) (inRange_value x) (inRange_value y) hx hy

/-- **Sums.** A sum is finite exactly when the summands are and it is below the threshold. -/
theorem isFinite_add (x y : Float) : (x + y).isFinite = true ↔
    x.isFinite = true ∧ y.isFinite = true ∧ InRange (value x + value y) :=
  isFinite_iff_of_rounds (add_rounds x y) not_isFinite_pack_add

theorem abs_add_sub_le {x y : Float} (h : (x + y).isFinite = true) :
    |value (x + y) - (value x + value y)| ≤ ulp (value x + value y) :=
  (add_rounds x y ((isFinite_add x y).mp h).1 ((isFinite_add x y).mp h).2.1).abs_sub_le h

/-- The difference of doubles. -/
theorem sub_rounds (x y : Float) (hx : x.isFinite = true) (hy : y.isFinite = true) :
    Rounds (value x - value y)
      (UnpackedFloat.sub Format.binary64 x.toModel.unpack y.toModel.unpack) := by
  have hvalue : value x - value y = unpackedValue x.toModel.unpack +
      unpackedValue y.toModel.unpack.neg := by
    rw [unpackedValue_neg, ← sub_eq_add_neg]
    rfl
  have hrange : InRange (unpackedValue y.toModel.unpack.neg) := by
    rw [unpackedValue_neg, InRange, abs_neg]
    exact inRange_value y
  rw [unpackedSub_eq, hvalue]
  exact rounds_add (canonical x) (canonical y).neg (inRange_value x) hrange hx
    ((isFinite_neg _).trans hy)

/-- **Differences.** So is a difference. -/
theorem isFinite_sub (x y : Float) : (x - y).isFinite = true ↔
    x.isFinite = true ∧ y.isFinite = true ∧ InRange (value x - value y) := by
  refine isFinite_iff_of_rounds (sub_rounds x y) fun h => ?_
  rw [unpackedSub_eq]
  apply not_isFinite_pack_add
  rwa [isFinite_neg]

theorem abs_sub_sub_le {x y : Float} (h : (x - y).isFinite = true) :
    |value (x - y) - (value x - value y)| ≤ ulp (value x - value y) :=
  (sub_rounds x y ((isFinite_sub x y).mp h).1 ((isFinite_sub x y).mp h).2.1).abs_sub_le h

/-! ## Products -/

/-- The exponent of a product of canonical values is not above that of its rounded result. -/
theorem le_resultExponent_mul {m m' : ℕ} {e e' : ℤ} (hm : 0 < m) (hm' : 0 < m') (he : e ≤ 971)
    (he' : e' ≤ 971) (h : 2 ^ 52 ≤ m ∨ e = -1074) (h' : 2 ^ 52 ≤ m' ∨ e' = -1074) :
    e + e' ≤ resultExponent (m * m') (e + e') := by
  have hne : m * m' ≠ 0 := (Nat.mul_pos hm hm').ne'
  rw [resultExponent_eq]
  rcases h with h | rfl
  · have hlog : 52 ≤ (m * m').log2 :=
      (Nat.le_log2 hne).mpr (h.trans (Nat.le_mul_of_pos_right m hm'))
    omega
  · rcases h' with h' | rfl
    · have hlog : 52 ≤ (m * m').log2 :=
        (Nat.le_log2 hne).mpr (h'.trans (Nat.le_mul_of_pos_left m' hm))
      omega
    · omega

theorem apply_mul (s s' : Sign) : (s * s').apply 1 = s.apply 1 * s'.apply 1 := by
  cases s <;> cases s' <;> rfl

/-- A value is its magnitude with its sign. -/
theorem apply_mul_abs {s : Sign} {m : ℕ} {e : ℤ} {hm : 0 < m} :
    (s.apply 1 : ℤ) * |unpackedValue (.finite s m e hm)| = unpackedValue (.finite s m e hm) := by
  rw [abs_unpackedValue, unpackedValue, apply_eq s m, mul_assoc]

/-- The product of operands that are not both finite. -/
theorem not_isFinite_pack_mul {p q : UnpackedFloat}
    (h : ¬ (p.isFinite = true ∧ q.isFinite = true)) :
    ¬ (Float.Model.pack (UnpackedFloat.mul Format.binary64 p q)).unpack.isFinite = true := by
  cases p with
  | notANumber => exact not_isFinite_pack_notANumber
  | infinity s =>
    cases q with
    | notANumber => exact not_isFinite_pack_notANumber
    | infinity s' => exact not_isFinite_pack_infinity _
    | zero s' => exact not_isFinite_pack_notANumber
    | finite s' m e hm => exact not_isFinite_pack_infinity _
  | zero s =>
    cases q with
    | notANumber => exact not_isFinite_pack_notANumber
    | infinity s' => exact not_isFinite_pack_notANumber
    | zero s' => exact absurd ⟨rfl, rfl⟩ h
    | finite s' m e hm => exact absurd ⟨rfl, rfl⟩ h
  | finite s m e hm =>
    cases q with
    | notANumber => exact not_isFinite_pack_notANumber
    | infinity s' => exact not_isFinite_pack_infinity _
    | zero s' => exact absurd ⟨rfl, rfl⟩ h
    | finite s' m' e' hm' => exact absurd ⟨rfl, rfl⟩ h

/-- The product of finite operands is their exact product rounded. -/
theorem rounds_mul {p q : UnpackedFloat} (hp : Canonical p) (hq : Canonical q)
    (hfinite : p.isFinite = true) (hfinite' : q.isFinite = true) :
    Rounds (unpackedValue p * unpackedValue q) (UnpackedFloat.mul Format.binary64 p q) := by
  cases p with
  | notANumber => exact absurd hfinite Bool.false_ne_true
  | infinity s => exact absurd hfinite Bool.false_ne_true
  | zero s =>
    have hprod : unpackedValue (.zero s) * unpackedValue q = 0 := zero_mul _
    rw [hprod]
    cases q with
    | notANumber => exact absurd hfinite' Bool.false_ne_true
    | infinity s' => exact absurd hfinite' Bool.false_ne_true
    | zero s' => exact rounds_zero _
    | finite s' m e hm => exact rounds_zero _
  | finite s m e hm =>
    cases q with
    | notANumber => exact absurd hfinite' Bool.false_ne_true
    | infinity s' => exact absurd hfinite' Bool.false_ne_true
    | zero s' =>
      have hprod : unpackedValue (.finite s m e hm) * unpackedValue (.zero s') = 0 := mul_zero _
      rw [hprod]
      exact rounds_zero _
    | finite s' m' e' hm' =>
      obtain ⟨-, -, he, hcanon⟩ := hp
      obtain ⟨-, -, he', hcanon'⟩ := hq
      have hexact : Represents |unpackedValue (.finite s m e hm) *
          unpackedValue (.finite s' m' e' hm')| (m * m') (e + e') .exact := by
        show _ = ((m * m' : ℕ) : ℚ) * 2 ^ (e + e')
        rw [abs_mul, abs_unpackedValue, abs_unpackedValue, zpow_add₀ (by norm_num)]
        push_cast
        ring
      have hsign : ((s * s').apply 1 : ℤ) * |unpackedValue (.finite s m e hm) *
          unpackedValue (.finite s' m' e' hm')| =
          unpackedValue (.finite s m e hm) * unpackedValue (.finite s' m' e' hm') := by
        rw [apply_mul, Int.cast_mul, abs_mul, mul_mul_mul_comm, apply_mul_abs, apply_mul_abs]
      exact rounds_of_represents (s * s') hexact hsign
        (le_resultExponent_mul hm hm' he he' hcanon hcanon')

/-- The product of doubles. -/
theorem mul_rounds (x y : Float) (hx : x.isFinite = true) (hy : y.isFinite = true) :
    Rounds (value x * value y)
      (UnpackedFloat.mul Format.binary64 x.toModel.unpack y.toModel.unpack) :=
  rounds_mul (canonical x) (canonical y) hx hy

/-- **Products.** A product is finite exactly when the factors are and it is below the
threshold. -/
theorem isFinite_mul (x y : Float) : (x * y).isFinite = true ↔
    x.isFinite = true ∧ y.isFinite = true ∧ InRange (value x * value y) :=
  isFinite_iff_of_rounds (mul_rounds x y) not_isFinite_pack_mul

theorem abs_mul_sub_le {x y : Float} (h : (x * y).isFinite = true) :
    |value (x * y) - value x * value y| ≤ ulp (value x * value y) :=
  (mul_rounds x y ((isFinite_mul x y).mp h).1 ((isFinite_mul x y).mp h).2.1).abs_sub_le h

/-! ## Quotients -/

/-- The accuracy that a remainder stands for. -/
theorem represents_div {n d : ℕ} (hd : 0 < d) (e : ℤ) :
    Represents ((n : ℚ) / d * 2 ^ e) (n / d) e (accuracyOfFraction (n % d) d) := by
  have hd' : (0 : ℚ) < d := by exact_mod_cast hd
  have hpos : (0 : ℚ) < 2 ^ e := zpow_pos (by norm_num) e
  have hsplit : (n : ℚ) / d = (n / d : ℕ) + ((n % d : ℕ) : ℚ) / d := by
    have hn : (n : ℚ) = d * (n / d : ℕ) + (n % d : ℕ) := by
      exact_mod_cast (Nat.div_add_mod n d).symm
    rw [div_eq_iff hd'.ne', add_mul, div_mul_cancel₀ _ hd'.ne', mul_comm _ (d : ℚ)]
    exact hn
  have hlt : ((n % d : ℕ) : ℚ) / d < 1 := by
    rw [div_lt_one hd']
    exact_mod_cast Nat.mod_lt n hd
  rw [hsplit]
  generalize n / d = q at hsplit
  generalize n % d = r at hlt
  unfold accuracyOfFraction
  split_ifs with hzero
  · -- the division leaves no remainder
    show _ = _
    rw [hzero, Nat.cast_zero, zero_div, add_zero]
  · -- the remainder is compared with half the divisor
    have hr : (0 : ℚ) < (r : ℚ) / d := div_pos (by exact_mod_cast Nat.pos_of_ne_zero hzero) hd'
    cases hcompare : compare (2 * r) d with
    | lt =>
      have h : 2 * r < d := compare_lt_iff_lt.mp hcompare
      have hhalf : (r : ℚ) / d < 1 / 2 := by
        rw [div_lt_div_iff₀ hd' (by norm_num)]
        have h' : (2 * r : ℚ) < d := by exact_mod_cast h
        linarith
      exact ⟨mul_lt_mul_of_pos_right (by linarith) hpos,
        mul_lt_mul_of_pos_right (by linarith) hpos⟩
    | eq =>
      have h : 2 * r = d := compare_eq_iff_eq.mp hcompare
      have hhalf : (r : ℚ) / d = 1 / 2 := by
        rw [div_eq_div_iff hd'.ne' (by norm_num)]
        have h' : (2 * r : ℚ) = d := by exact_mod_cast h
        linarith
      show _ = _
      rw [hhalf]
    | gt =>
      have h : d < 2 * r := compare_gt_iff_gt.mp hcompare
      have hhalf : 1 / 2 < (r : ℚ) / d := by
        rw [div_lt_div_iff₀ (by norm_num) hd']
        have h' : (d : ℚ) < 2 * r := by exact_mod_cast h
        linarith
      exact ⟨mul_lt_mul_of_pos_right (by linarith) hpos,
        mul_lt_mul_of_pos_right (by linarith) hpos⟩

section Quotient

variable (m : ℕ) (e : ℤ) (m' : ℕ) (e' : ℤ)

/-- The exponent that a quotient is computed at. -/
def quotientExponent : ℤ :=
  min (e - e') (max (m.log2 + 1 + e - (m'.log2 + 1 + e') - 53) (-1074))

/-- The dividend, brought to this exponent. -/
def dividend : ℕ := m * 2 ^ (e - e' - quotientExponent m e m' e').toNat

theorem divCore_eq : divCore Format.binary64 m e m' e' =
    (dividend m e m' e' / m', quotientExponent m e m' e',
      accuracyOfFraction (dividend m e m' e' % m') m') := by
  rw [dividend, ← Nat.shiftLeft_eq]
  rfl

variable {m e m' e'}

theorem dividend_div (hm' : 0 < m') :
    (dividend m e m' e' : ℚ) / m' * 2 ^ quotientExponent m e m' e' =
      m * 2 ^ e / (m' * 2 ^ e') := by
  have hle : quotientExponent m e m' e' ≤ e - e' := min_le_left _ _
  have hpow : (2 : ℚ) ^ e = 2 ^ (e - e' - quotientExponent m e m' e').toNat *
      2 ^ quotientExponent m e m' e' * 2 ^ e' := by
    rw [← zpow_natCast, ← zpow_add₀ (by norm_num), ← zpow_add₀ (by norm_num)]
    congr 1
    omega
  have hd : (m' : ℚ) ≠ 0 := by exact_mod_cast hm'.ne'
  have hpos : (2 : ℚ) ^ e' ≠ 0 := (zpow_pos (by norm_num) _).ne'
  rw [dividend, hpow]
  push_cast
  field_simp

/-- A quotient is computed with enough bits. -/
theorem quotientExponent_le (hm : 0 < m) (hm' : 0 < m') :
    quotientExponent m e m' e' ≤
      resultExponent (dividend m e m' e' / m') (quotientExponent m e m' e') := by
  rw [resultExponent_eq]
  by_cases hsmall : quotientExponent m e m' e' ≤ -1074
  · exact le_max_of_le_right hsmall
  · apply le_max_of_le_left
    -- the dividend has at least 53 bits more than the divisor
    have hlog : m'.log2 + 53 ≤ (dividend m e m' e').log2 := by
      rw [dividend, log2_mul_two_pow hm.ne']
      unfold quotientExponent at hsmall ⊢
      omega
    have hdividend : 2 ^ (m'.log2 + 53) ≤ dividend m e m' e' :=
      (Nat.pow_le_pow_right (by norm_num) hlog).trans
        (Nat.log2_self_le (Nat.mul_pos hm (by positivity)).ne')
    have hquotient : 2 ^ 52 ≤ dividend m e m' e' / m' := by
      rw [Nat.le_div_iff_mul_le hm']
      calc 2 ^ 52 * m' ≤ 2 ^ 52 * 2 ^ (m'.log2 + 1) :=
            Nat.mul_le_mul_left _ Nat.lt_log2_self.le
        _ = 2 ^ (m'.log2 + 53) := by ring
        _ ≤ dividend m e m' e' := hdividend
    have hbits : 52 ≤ (dividend m e m' e' / m').log2 :=
      (Nat.le_log2 (by omega)).mpr hquotient
    omega

end Quotient

theorem apply_div (s s' : Sign) :
    (((s / s').apply 1 : ℤ) : ℚ) = (s.apply 1 : ℤ) / (s'.apply 1 : ℤ) := by
  have hdiv : s / s' = s * s' := by cases s <;> cases s' <;> rfl
  have hself : ((s'.apply 1 : ℤ) : ℚ) * (s'.apply 1 : ℤ) = 1 := by
    cases s' <;> norm_num [Sign.apply]
  rw [hdiv, apply_mul, Int.cast_mul, eq_div_iff (left_ne_zero_of_mul_eq_one hself), mul_assoc,
    hself, mul_one]

/-- The quotient of finite operands is their exact quotient rounded. -/
theorem rounds_div {p q : UnpackedFloat} (hfinite : p.isFinite = true)
    (hfinite' : q.isFinite = true) (hne : unpackedValue q ≠ 0) :
    Rounds (unpackedValue p / unpackedValue q) (UnpackedFloat.div Format.binary64 p q) := by
  cases q with
  | notANumber => exact absurd hfinite' Bool.false_ne_true
  | infinity s' => exact absurd hfinite' Bool.false_ne_true
  | zero s' => exact absurd rfl hne
  | finite s' m' e' hm' =>
    cases p with
    | notANumber => exact absurd hfinite Bool.false_ne_true
    | infinity s => exact absurd hfinite Bool.false_ne_true
    | zero s =>
      have hquotient : unpackedValue (.zero s) / unpackedValue (.finite s' m' e' hm') = 0 :=
        zero_div _
      rw [hquotient]
      exact rounds_zero _
    | finite s m e hm =>
      have hexact : Represents |unpackedValue (.finite s m e hm) /
          unpackedValue (.finite s' m' e' hm')| (dividend m e m' e' / m')
          (quotientExponent m e m' e') (accuracyOfFraction (dividend m e m' e' % m') m') := by
        rw [abs_div, abs_unpackedValue, abs_unpackedValue, ← dividend_div hm']
        exact represents_div hm' _
      have hsign : ((s / s').apply 1 : ℤ) * |unpackedValue (.finite s m e hm) /
          unpackedValue (.finite s' m' e' hm')| =
          unpackedValue (.finite s m e hm) / unpackedValue (.finite s' m' e' hm') := by
        rw [apply_div, abs_div, div_mul_div_comm, apply_mul_abs, apply_mul_abs]
      have hdiv : UnpackedFloat.div Format.binary64 (.finite s m e hm) (.finite s' m' e' hm') =
          roundWithAccuracy Format.binary64 (s / s') (dividend m e m' e' / m')
            (quotientExponent m e m' e') (accuracyOfFraction (dividend m e m' e' % m') m') := by
        rw [UnpackedFloat.div, divCore_eq]
      rw [hdiv]
      exact rounds_of_represents (s / s') hexact hsign (quotientExponent_le hm hm')

/-- The quotient of a dividend that is not finite, or by zero. -/
theorem not_isFinite_pack_div {p q : UnpackedFloat} (hfinite : q.isFinite = true)
    (h : ¬ (p.isFinite = true ∧ unpackedValue q ≠ 0)) :
    ¬ (Float.Model.pack (UnpackedFloat.div Format.binary64 p q)).unpack.isFinite = true := by
  cases q with
  | notANumber => exact absurd hfinite Bool.false_ne_true
  | infinity s' => exact absurd hfinite Bool.false_ne_true
  | zero s' =>
    cases p with
    | notANumber => exact not_isFinite_pack_notANumber
    | infinity s => exact not_isFinite_pack_infinity _
    | zero s => exact not_isFinite_pack_notANumber
    | finite s m e hm => exact not_isFinite_pack_infinity _
  | finite s' m' e' hm' =>
    have hne : unpackedValue (.finite s' m' e' hm') ≠ 0 := by
      rw [← abs_pos, abs_unpackedValue]
      exact mul_pos (by exact_mod_cast hm') (zpow_pos (by norm_num) _)
    cases p with
    | notANumber => exact not_isFinite_pack_notANumber
    | infinity s => exact not_isFinite_pack_infinity _
    | zero s => exact absurd ⟨rfl, hne⟩ h
    | finite s m e hm => exact absurd ⟨rfl, hne⟩ h

/-- The quotient of doubles. -/
theorem div_rounds (x y : Float) (hx : x.isFinite = true) (hy : y.isFinite = true)
    (hne : value y ≠ 0) : Rounds (value x / value y)
      (UnpackedFloat.div Format.binary64 x.toModel.unpack y.toModel.unpack) :=
  rounds_div hx hy hne

/-- **Quotients.** A quotient by a finite value is finite exactly when the dividend is, the divisor
is not zero and it is below the threshold. -/
theorem isFinite_div {x y : Float} (hy : y.isFinite = true) : (x / y).isFinite = true ↔
    x.isFinite = true ∧ value y ≠ 0 ∧ InRange (value x / value y) := by
  constructor
  · intro h
    obtain ⟨hx, hne⟩ := not_not.mp fun hxy => not_isFinite_pack_div hy hxy h
    exact ⟨hx, hne, (div_rounds x y hx hy hne).isFinite_iff.mp h⟩
  · rintro ⟨hx, hne, hv⟩
    exact (div_rounds x y hx hy hne).isFinite_iff.mpr hv

theorem abs_div_sub_le {x y : Float} (hy : y.isFinite = true) (h : (x / y).isFinite = true) :
    |value (x / y) - value x / value y| ≤ ulp (value x / value y) := by
  obtain ⟨hx, hne, -⟩ := (isFinite_div hy).mp h
  exact (div_rounds x y hx hy hne).abs_sub_le h

end Binary64

end Foundation
