import Mathlib.Algebra.Order.Field.Basic
import Mathlib.Data.Sign.Defs

/-!
# Exact arithmetic with infinities and not-a-number

The field operations of floating-point arithmetic without rounding: every operation is total, a
division by zero yields an infinity or not-a-number, and what is not a number stays so. Zero
carries no sign, so a division of a number by zero has the sign of the number.

## Main definitions

* `Extended K`: the numbers of `K`, two infinities, and not-a-number
* `Extended.IsNum x`, `Extended.value x`: the value is a number, and that number

## Main results

* `Extended.ofSign_add`, `Extended.num_sub_ofSign`, `Extended.num_mul_ofSign`: the infinities by
  their signs
* `Extended.isNum_add`, `Extended.isNum_sub`, `Extended.isNum_mul`: a result is a number exactly
  when the arguments are
-/

namespace Foundation

/-- The numbers of `K`, with the values that exceptional operations yield. -/
inductive Extended (K : Type*)
  | num (q : K)
  | posInf
  | negInf
  | nan
deriving DecidableEq, Repr

namespace Extended

variable {K : Type*}

/-- The value is a number. -/
def IsNum : Extended K → Prop
  | num _ => True
  | _ => False

instance : DecidablePred (IsNum (K := K))
  | num _ => inferInstanceAs (Decidable True)
  | posInf | negInf | nan => inferInstanceAs (Decidable False)

@[simp] theorem isNum_num (q : K) : (num q).IsNum := trivial

/-- The number that a value is, or zero. -/
def value [Zero K] : Extended K → K
  | num q => q
  | _ => 0

theorem num_value [Zero K] {x : Extended K} (h : x.IsNum) : num x.value = x := by
  cases x with
  | num q => rfl
  | posInf | negInf | nan => exact h.elim

/-- The infinity of a sign. -/
def ofSign : SignType → Extended K
  | 1 => posInf
  | -1 => negInf
  | 0 => nan

theorem not_isNum_ofSign (s : SignType) : ¬ (ofSign s : Extended K).IsNum := by
  cases s <;> exact id

/-- A value that is not a number is the infinity of a sign, or not-a-number for the sign of
zero. -/
theorem exists_eq_ofSign {x : Extended K} (h : ¬ x.IsNum) : ∃ s, x = ofSign s := by
  cases x with
  | num q => exact absurd trivial h
  | posInf => exact ⟨1, rfl⟩
  | negInf => exact ⟨-1, rfl⟩
  | nan => exact ⟨0, rfl⟩

/-! ## Addition -/

section Addition

variable [Field K]

instance : Zero (Extended K) := ⟨num 0⟩

instance : IntCast (Extended K) := ⟨fun n => num n⟩

instance : Neg (Extended K) where
  neg
    | num a => num (-a)
    | posInf => negInf
    | negInf => posInf
    | nan => nan

/-- Opposite infinities have no sum. -/
instance : Add (Extended K) where
  add
    | num a, num b => num (a + b)
    | posInf, num _ | num _, posInf | posInf, posInf => posInf
    | negInf, num _ | num _, negInf | negInf, negInf => negInf
    | _, _ => nan

instance : Sub (Extended K) := ⟨fun x y => x + -y⟩

@[simp] theorem zero_eq : (0 : Extended K) = num 0 := rfl

@[simp] theorem intCast_eq (n : ℤ) : (n : Extended K) = num (n : K) := rfl

@[simp] theorem num_sub_num (a b : K) : num a - num b = num (a - b) := by
  rw [sub_eq_add_neg]
  rfl

theorem isNum_neg {x : Extended K} : (-x).IsNum ↔ x.IsNum := by
  cases x <;> exact Iff.rfl

theorem isNum_add {x y : Extended K} : (x + y).IsNum ↔ x.IsNum ∧ y.IsNum := by
  cases x <;> cases y
  case num.num => exact iff_of_true trivial ⟨trivial, trivial⟩
  all_goals exact iff_of_false id (by simp [IsNum])

theorem isNum_sub {x y : Extended K} : (x - y).IsNum ↔ x.IsNum ∧ y.IsNum :=
  isNum_add.trans (and_congr_right fun _ => isNum_neg)

@[simp] theorem nan_add (x : Extended K) : nan + x = nan := by
  cases x <;> rfl

@[simp] theorem add_nan (x : Extended K) : x + nan = nan := by
  cases x <;> rfl

@[simp] theorem nan_sub (x : Extended K) : nan - x = nan := nan_add _

@[simp] theorem sub_nan (x : Extended K) : x - nan = nan := add_nan x

/-- An infinity added to anything stays that infinity, or there is no sum. -/
theorem ofSign_add (s : SignType) (x : Extended K) :
    ofSign s + x = ofSign s ∨ ofSign s + x = nan := by
  cases s
  case zero => exact Or.inr (nan_add x)
  all_goals cases x
  case pos.num | pos.posInf | neg.num | neg.negInf => exact Or.inl rfl
  all_goals exact Or.inr rfl

theorem add_ofSign (x : Extended K) (s : SignType) :
    x + ofSign s = ofSign s ∨ x + ofSign s = nan := by
  cases s
  case zero => exact Or.inr (add_nan x)
  all_goals cases x
  case pos.num | pos.posInf | neg.num | neg.negInf => exact Or.inl rfl
  all_goals exact Or.inr rfl

theorem ofSign_add_neg (s : SignType) : (ofSign s : Extended K) + ofSign (-s) = nan := by
  cases s <;> rfl

theorem num_sub_ofSign (a : K) (s : SignType) : num a - ofSign s = ofSign (-s) := by
  cases s <;> rfl

end Addition

/-! ## Order, multiplication and division -/

/-- Not-a-number is not comparable. -/
instance [LT K] : LT (Extended K) where
  lt
    | num a, num b => a < b
    | num _, posInf | negInf, num _ | negInf, posInf => True
    | _, _ => False

@[simp] theorem num_lt_num [LT K] (a b : K) : num a < num b ↔ a < b := Iff.rfl

instance decidableLT [LT K] [DecidableLT K] : ∀ x y : Extended K, Decidable (x < y)
  | num a, num b => inferInstanceAs (Decidable (a < b))
  | num _, posInf | negInf, num _ | negInf, posInf => inferInstanceAs (Decidable True)
  | num _, negInf | num _, nan => inferInstanceAs (Decidable False)
  | posInf, num _ | posInf, posInf | posInf, negInf | posInf, nan =>
    inferInstanceAs (Decidable False)
  | negInf, negInf | negInf, nan => inferInstanceAs (Decidable False)
  | nan, num _ | nan, posInf | nan, negInf | nan, nan => inferInstanceAs (Decidable False)

variable [Field K] [LinearOrder K]

/-- The sign of a value; not-a-number has none. -/
def sign : Extended K → SignType
  | num q => SignType.sign q
  | posInf => 1
  | negInf => -1
  | nan => 0

/-- An infinity times zero is not a number. -/
instance : Mul (Extended K) where
  mul
    | num a, num b => num (a * b)
    | nan, _ | _, nan => nan
    | x, y => ofSign (x.sign * y.sign)

/-- A number other than zero divided by zero is the infinity of its sign, and zero divided by zero
is not a number. -/
instance : Div (Extended K) where
  div
    | num a, num b => if b = 0 then ofSign (SignType.sign a) else num (a / b)
    | num _, posInf | num _, negInf => num 0
    | posInf, num b => if b < 0 then negInf else posInf
    | negInf, num b => if b < 0 then posInf else negInf
    | _, _ => nan

theorem num_div_num {b : K} (hb : b ≠ 0) (a : K) : num a / num b = num (a / b) := if_neg hb

theorem isNum_mul {x y : Extended K} : (x * y).IsNum ↔ x.IsNum ∧ y.IsNum := by
  cases x <;> cases y
  case num.num => exact iff_of_true trivial ⟨trivial, trivial⟩
  all_goals exact iff_of_false (by first | exact not_isNum_ofSign _ | exact id) (by simp [IsNum])

@[simp] theorem nan_mul (x : Extended K) : nan * x = nan := by
  cases x <;> rfl

@[simp] theorem mul_nan (x : Extended K) : x * nan = nan := by
  cases x <;> rfl

/-- A number times an infinity is the infinity of the product of the signs. -/
theorem num_mul_ofSign (a : K) (s : SignType) :
    num a * ofSign s = ofSign (SignType.sign a * s) := by
  cases s
  case zero =>
    rw [show SignType.zero = 0 from rfl, mul_zero]
    rfl
  all_goals rfl

end Extended

end Foundation
