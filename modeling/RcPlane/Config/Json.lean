import RcPlane.Foundation.Narrowing

/-!
# JSON values

The part of the JSON library that the configuration uses: values as the parser stores them, the
subscript that inserts what it does not find, and the conversions. An arithmetic conversion is a
`static_cast` of the stored number, whatever the number is.

## Main definitions

* `Json`: a JSON value
* `JsonException`: what the library throws
* `Json.subscript`: `operator[]` with a key, on a value that is not constant
* `IntegerType`, `ValueType`: the types a value is converted to
* `IntegerType.ofInt`, `IntegerType.ofDouble`: the conversions to an integer type
* `Json.get`: the conversion of a value
* `Json.resolve`: following keys through nested objects
* `Json.accumulate`: following keys with subscripts, on copies

## Main results

* `Json.accumulate_of_some`, `Json.accumulate_of_none`: subscripts find what the keys resolve to,
  or a value that nothing is converted from
* `Json.get_string_eq_ok`, `Json.get_double_eq_ok`, `Json.get_integer_eq_ok`: what is converted to
  what
-/

namespace RcPlane

open Foundation

/-! ## Values -/

/-- A JSON value. A number is stored as the parser found it: an unsigned or a signed integer, or a
finite `double`. The order of an object's members is nothing that is read. -/
inductive Json
  | null
  | boolean (b : Bool)
  | numberUnsigned (n : UInt64)
  | numberInteger (n : Int64)
  | numberFloat (x : ℚ)
  | string (s : String)
  | array (elements : List Json)
  | object (members : List (String × Json))

/-- What the library throws. -/
inductive JsonException
  | parseError (what : String)
  | typeError (id : ℕ) (what : String)
deriving DecidableEq, Repr

namespace JsonException

/-- The exception is a `type_error`. -/
def IsTypeError : JsonException → Prop
  | typeError _ _ => True
  | parseError _ => False

end JsonException

namespace Json

/-- The name of a value's type in messages. -/
def typeName : Json → String
  | null => "null"
  | object _ => "object"
  | array _ => "array"
  | string _ => "string"
  | boolean _ => "boolean"
  | numberUnsigned _ | numberInteger _ | numberFloat _ => "number"

/-- The members of an object with a member of the given key, null unless there is one already. -/
def emplace (members : List (String × Json)) (key : String) : List (String × Json) :=
  match members.lookup key with
  | some _ => members
  | none => members ++ [(key, null)]

/-- `operator[]` with a key: the element, and the value with that element in it. -/
def subscript (j : Json) (key : String) : Except JsonException (Json × Json) :=
  match j with
  | null => .ok (null, object [(key, null)])
  | object members => .ok ((members.lookup key).getD null, object (emplace members key))
  | j => .error
      (.typeError 305 ("cannot use operator[] with a string argument with " ++ j.typeName))

end Json

/-! ## Conversions -/

/-- The integer types a number is converted to. -/
inductive IntegerType
  | int8
  | uint8
  | uint32
deriving DecidableEq, Repr

namespace IntegerType

/-- The values of an integer type. -/
abbrev Value : IntegerType → Type
  | int8 => Int8
  | uint8 => UInt8
  | uint32 => UInt32

/-- The conversion of an integer, which wraps. -/
def ofInt : (T : IntegerType) → ℤ → T.Value
  | int8 => Int8.ofInt
  | uint8 => UInt8.ofInt
  | uint32 => UInt32.ofInt

/-- The integer that a value is. -/
def toInt : {T : IntegerType} → T.Value → ℤ
  | int8, v => Int8.toInt v
  | uint8, v => (UInt8.toNat v : ℤ)
  | uint32, v => (UInt32.toNat v : ℤ)

/-- The least value of an integer type. -/
def min : IntegerType → ℤ
  | int8 => -128
  | uint8 => 0
  | uint32 => 0

/-- The largest value of an integer type. -/
def max : IntegerType → ℤ
  | int8 => 127
  | uint8 => 255
  | uint32 => 4294967295

/-- The conversion of a `double`: truncation, where the truncated value is one of the type. C++
leaves the value of any other conversion open: it is `outOfRange x`. -/
def ofDouble (T : IntegerType) (outOfRange : ℚ → T.Value) (x : ℚ) : T.Value :=
  if (T.min : ℚ) - 1 < x ∧ x < T.max + 1 then T.ofInt (truncate x) else outOfRange x

theorem toInt_mem {T : IntegerType} (v : T.Value) : T.min ≤ toInt v ∧ toInt v ≤ T.max := by
  cases T with
  | int8 => exact int8_toInt_bounds v
  | uint8 =>
    have := uint8_toNat_le v
    simp only [toInt, min, max]
    omega
  | uint32 =>
    have := UInt32.toNat_lt v
    simp only [toInt, min, max]
    omega

/-- An integer of the type's range is converted to itself. -/
theorem toInt_ofInt {T : IntegerType} {n : ℤ} (h₁ : T.min ≤ n) (h₂ : n ≤ T.max) :
    toInt (T.ofInt n) = n := by
  cases T with
  | int8 => exact int8_ofInt_of_mem h₁ h₂
  | uint8 =>
    simp only [min, max] at h₁ h₂
    exact (uint8_ofInt_toNat n).trans (Int.emod_eq_of_lt h₁ (by omega))
  | uint32 =>
    simp only [min, max] at h₁ h₂
    show ((UInt32.ofNat (n % 2 ^ 32).toNat).toNat : ℤ) = n
    rw [UInt32.toNat_ofNat']
    omega

end IntegerType

/-- The types a value is converted to. -/
inductive ValueType
  | string
  | double
  | integer (T : IntegerType)
deriving DecidableEq, Repr

/-- The values of a type. -/
abbrev ValueType.Value : ValueType → Type
  | string => String
  | double => ℚ
  | integer T => T.Value

namespace Json

/-- What the conversions of `double`s that C++ leaves open yield. -/
abbrev OutOfRange : Type := (T : IntegerType) → ℚ → T.Value

/-- The exception of a conversion. -/
def mustBe (expected : String) (j : Json) : JsonException :=
  .typeError 302 ("type must be " ++ expected ++ ", but is " ++ j.typeName)

/-- The conversion of a value. -/
def get (outOfRange : OutOfRange) : (T : ValueType) → Json → Except JsonException T.Value
  | .string, string s => .ok s
  | .string, j => .error (mustBe "string" j)
  | .double, numberUnsigned n => .ok (doubleOfInt n.toNat)
  | .double, numberInteger n => .ok (doubleOfInt n.toInt)
  | .double, numberFloat x => .ok x
  | .double, j => .error (mustBe "number" j)
  | .integer T, numberUnsigned n => .ok (T.ofInt n.toNat)
  | .integer T, numberInteger n => .ok (T.ofInt n.toInt)
  | .integer T, numberFloat x => .ok (T.ofDouble (outOfRange T) x)
  -- only the conversions to integers take a boolean
  | .integer T, boolean b => .ok (T.ofInt b.toNat)
  | .integer _, j => .error (mustBe "number" j)

/-- The stored number. -/
def number? : Json → Option ℚ
  | numberUnsigned n => some n.toNat
  | numberInteger n => some n.toInt
  | numberFloat x => some x
  | _ => none

/-- A number, or a boolean. -/
def IsNumberOrBoolean : Json → Prop
  | boolean _ => True
  | j => j.number?.isSome

/-- A value is converted to a string exactly if it is one. -/
theorem get_string_eq_ok {outOfRange : OutOfRange} {j : Json} {s : String} :
    j.get outOfRange .string = .ok s ↔ j = string s := by
  cases j <;> simp [get]

/-- A value is converted to a `double` exactly if it is a number. -/
theorem get_double_eq_ok {outOfRange : OutOfRange} {j : Json} :
    (∃ v, j.get outOfRange .double = .ok v) ↔ j.number?.isSome := by
  cases j <;> simp [get, number?]

/-- A value is converted to an integer exactly if it is a number or a boolean. -/
theorem get_integer_eq_ok {outOfRange : OutOfRange} {T : IntegerType} {j : Json} :
    (∃ v, j.get outOfRange (.integer T) = .ok v) ↔ j.IsNumberOrBoolean := by
  cases j <;> simp [get, IsNumberOrBoolean, number?]

/-- A conversion that fails throws a `type_error`. -/
theorem get_eq_error {outOfRange : OutOfRange} {T : ValueType} {j : Json} {e : JsonException}
    (h : j.get outOfRange T = .error e) : e.IsTypeError := by
  unfold get at h
  split at h <;> cases h <;> trivial

/-- Nothing is converted from null. -/
theorem get_null (outOfRange : OutOfRange) (T : ValueType) :
    ∃ e, null.get outOfRange T = .error e := by
  cases T <;> exact ⟨_, rfl⟩

/-! ## Paths -/

/-- What the keys lead to through nested objects. -/
def resolve : List String → Json → Option Json
  | [], j => some j
  | key :: keys, object members => (members.lookup key).bind (resolve keys)
  | _ :: _, _ => none

/-- What the subscripts lead to, each applied to a copy of the element before it. -/
def accumulate (j : Json) (keys : List String) : Except JsonException Json :=
  keys.foldlM (fun subJson key => (subJson.subscript key).map Prod.fst) j

@[simp] theorem accumulate_nil (j : Json) : j.accumulate [] = .ok j := rfl

theorem accumulate_cons (j : Json) (key : String) (keys : List String) :
    j.accumulate (key :: keys) =
      ((j.subscript key).map Prod.fst).bind fun element => element.accumulate keys := rfl

/-- The elements of null are null. -/
theorem accumulate_null (keys : List String) : null.accumulate keys = .ok null := by
  induction keys with
  | nil => rfl
  | cons key keys ih =>
    rw [accumulate_cons]
    exact ih

/-- Subscripts lead to what their keys resolve to. -/
theorem accumulate_of_some {j element : Json} {keys : List String}
    (h : resolve keys j = some element) : j.accumulate keys = .ok element := by
  induction keys generalizing j with
  | nil => exact congrArg Except.ok (Option.some.inj h)
  | cons key keys ih =>
    cases j with
    | object members =>
      obtain ⟨member, hmember, h⟩ := Option.bind_eq_some_iff.mp h
      rw [accumulate_cons, subscript, hmember]
      exact ih h
    | _ => cases h

/-- Where the keys do not resolve, they lead to null, or one of them is applied to a value that
has no members. -/
theorem accumulate_of_none {j : Json} {keys : List String} (h : resolve keys j = none) :
    j.accumulate keys = .ok null ∨ ∃ e, j.accumulate keys = .error e ∧ e.IsTypeError := by
  induction keys generalizing j with
  | nil => cases h
  | cons key keys ih =>
    cases j with
    | object members =>
      rw [accumulate_cons, subscript]
      cases hmember : members.lookup key with
      | some member =>
        rw [resolve, hmember] at h
        exact ih h
      | none =>
        -- the element that is not there is null, and so are its elements
        exact Or.inl (accumulate_null keys)
    | null => exact Or.inl (accumulate_null (key :: keys))
    | _ => exact Or.inr ⟨_, rfl, trivial⟩

end Json

end RcPlane
