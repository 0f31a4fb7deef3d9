import RcPlane.Autopilot.AutopilotManager
import RcPlane.Config.ConfigManager

/-!
# The configured limits

`getValue` at an integer type casts whatever number it finds: a larger one wraps, a fraction is
truncated, and no exception is thrown. `AutopilotUtility` and `StabilizeAutopilot` read the same
aileron limit, the one as an `int8_t` and the other as a `double`, and hold different limits
whenever the configured one is not an `int8_t`.

## Main definitions

* `IntegerType.Holds`: a number is a value of the type
* `AutopilotUtility.construct`, `StabilizeConfig.construct`: the constructors, which read the
  configuration
* `Limits`: the configured limits
* `shippedDocument`: the part of `configs/config.json` that is read here

## Main results

* `IntegerType.get_eq_iff`: a number is converted to itself exactly if the type holds it
* `limits_unaltered_iff`: values are kept, and the two components agree, exactly if the types
  hold what is configured
-/

namespace RcPlane

open Foundation ConfigManager

/-! ## Numbers that are kept -/

namespace IntegerType

/-- A number is a value of the type. -/
def Holds (T : IntegerType) (x : ℚ) : Prop := ∃ n : ℤ, x = n ∧ T.min ≤ n ∧ n ≤ T.max

theorem holds_toInt {T : IntegerType} (v : T.Value) : T.Holds (toInt v) :=
  ⟨toInt v, rfl, toInt_mem v⟩

theorem holds_intCast {T : IntegerType} {n : ℤ} : T.Holds n ↔ T.min ≤ n ∧ n ≤ T.max := by
  constructor
  · rintro ⟨k, hk, h⟩
    rwa [Int.cast_inj.mp hk]
  · exact fun h => ⟨n, rfl, h⟩

/-- An integer is converted to itself exactly if the type holds it. -/
theorem toInt_ofInt_eq_iff {T : IntegerType} {n : ℤ} :
    (toInt (T.ofInt n) : ℚ) = n ↔ T.Holds n := by
  constructor
  · intro h
    rw [← h]
    exact holds_toInt _
  · intro h
    obtain ⟨h₁, h₂⟩ := holds_intCast.mp h
    rw [toInt_ofInt h₁ h₂]

/-- So is a `double`, whatever the conversions yield that C++ leaves open. -/
theorem toInt_ofDouble_eq_iff {T : IntegerType} {outOfRange : ℚ → T.Value} {x : ℚ} :
    (toInt (T.ofDouble outOfRange x) : ℚ) = x ↔ T.Holds x := by
  constructor
  · intro h
    rw [← h]
    exact holds_toInt _
  · rintro ⟨n, rfl, h₁, h₂⟩
    have h₁' : (T.min : ℚ) ≤ n := by exact_mod_cast h₁
    have h₂' : (n : ℚ) ≤ T.max := by exact_mod_cast h₂
    rw [ofDouble, if_pos ⟨by linarith, by linarith⟩, truncate_intCast, toInt_ofInt h₁ h₂]

/-- **A number is converted to an integer type without an exception, and keeps its value exactly if
the type holds it.** -/
theorem get_eq_iff {T : IntegerType} {outOfRange : Json.OutOfRange} {j : Json} {x : ℚ}
    (hx : j.number? = some x) :
    ∃ v, j.get outOfRange (.integer T) = .ok v ∧ ((toInt v : ℚ) = x ↔ T.Holds x) := by
  cases j with
  | numberUnsigned n =>
    obtain rfl := Option.some.inj hx
    exact ⟨_, rfl, by exact_mod_cast toInt_ofInt_eq_iff (T := T) (n := (n.toNat : ℤ))⟩
  | numberInteger n =>
    obtain rfl := Option.some.inj hx
    exact ⟨_, rfl, toInt_ofInt_eq_iff⟩
  | numberFloat y =>
    obtain rfl := Option.some.inj hx
    exact ⟨_, rfl, toInt_ofDouble_eq_iff⟩
  | _ => cases hx

end IntegerType

/-- A number converted to `double` is a given `int8_t` exactly if it is that number. -/
theorem get_double_eq_int8_iff {outOfRange : Json.OutOfRange} {j : Json} {x : ℚ}
    (hx : j.number? = some x) :
    ∃ v : ℚ, j.get outOfRange .double = .ok v ∧ ∀ k : Int8, v = k.toInt ↔ x = k.toInt := by
  have hsmall : ∀ k : Int8, k.toInt.natAbs < 2 ^ 53 := by
    intro k
    have := int8_toInt_bounds k
    omega
  cases j with
  | numberUnsigned n =>
    obtain rfl := Option.some.inj hx
    refine ⟨_, rfl, fun k => ?_⟩
    have hcast : (n.toNat : ℚ) = ((n.toNat : ℤ) : ℚ) := (Int.cast_natCast _).symm
    rw [doubleOfInt_eq_iff (hsmall k), hcast, Int.cast_inj]
  | numberInteger n =>
    obtain rfl := Option.some.inj hx
    refine ⟨_, rfl, fun k => ?_⟩
    rw [doubleOfInt_eq_iff (hsmall k), Int.cast_inj]
  | numberFloat y =>
    obtain rfl := Option.some.inj hx
    exact ⟨_, rfl, fun k => Iff.rfl⟩
  | _ => cases hx

/-! ## The constructors -/

/-- The limits that `AutopilotUtility` reads. -/
def AutopilotUtility.construct (configManager : ConfigManager)
    (outOfRange : String → Json.OutOfRange) : Except JsonException AutopilotUtility := do
  let value (T : IntegerType) (jsonPath : String) : Except JsonException T.Value :=
    configManager.getValue (outOfRange jsonPath) (.integer T) jsonPath
  let maxThrottle ← value .uint8 "rcplane.autopilot.max_throttle"
  let maxAileronDeflection ← value .int8 "rcplane.autopilot.max_aileron_deflection"
  let maxElevatorDeflection ← value .int8 "rcplane.autopilot.max_elevator_deflection"
  let maxRudderDeflection ← value .int8 "rcplane.autopilot.max_rudder_deflection"
  return { maxThrottle, maxAileronDeflection, maxElevatorDeflection, maxRudderDeflection }

/-- The constants that `StabilizeAutopilot` reads. -/
def StabilizeConfig.construct (configManager : ConfigManager)
    (outOfRange : String → Json.OutOfRange) : Except JsonException (StabilizeConfig ℚ) := do
  let value (jsonPath : String) : Except JsonException ℚ :=
    configManager.getValue (outOfRange jsonPath) .double jsonPath
  let maxAileronDeflection ← value "rcplane.autopilot.max_aileron_deflection"
  let kp ← value "rcplane.autopilot.stabilize.kp"
  let ki ← value "rcplane.autopilot.stabilize.ki"
  let kd ← value "rcplane.autopilot.stabilize.kd"
  let tau ← value "rcplane.autopilot.stabilize.tau"
  let maxIntegralError ← value "rcplane.autopilot.stabilize.max_integral_error"
  return { maxAileronDeflection, kp, ki, kd, tau, maxIntegralError }

/-- The part of `configs/config.json` that is read here. -/
def shippedDocument : Json :=
  .object [("rcplane", .object [
    ("common", .object [("handshake_termination_string", .string "flush\r\n")]),
    ("autopilot", .object [
      ("max_throttle", .numberUnsigned 255),
      ("max_aileron_deflection", .numberUnsigned 35),
      ("max_elevator_deflection", .numberUnsigned 40),
      ("max_rudder_deflection", .numberUnsigned 20),
      ("stabilize", .object [
        ("kp", .numberFloat 0.5),
        ("ki", .numberFloat 0.05),
        ("kd", .numberFloat 0.08),
        ("tau", .numberFloat 0.05),
        ("max_integral_error", .numberUnsigned 4)])]),
    ("som", .object [("som_controller", .object [
      ("handshake_attempts", .numberUnsigned 20),
      ("main_loop_delay_ms", .numberUnsigned 4000)])])])]

/-- The shipped configuration, as it is used elsewhere, is what the constructors read. -/
theorem construct_shipped (outOfRange : String → Json.OutOfRange) :
    AutopilotUtility.construct ⟨shippedDocument, true⟩ outOfRange =
        .ok AutopilotConfig.shipped.utility ∧
      StabilizeConfig.construct ⟨shippedDocument, true⟩ outOfRange =
        .ok AutopilotConfig.shipped.stabilize := by
  have haileron : doubleOfInt 35 = 35 := (doubleOfInt_eq_iff (k := 35) (by decide)).mpr rfl
  have hintegral : doubleOfInt 4 = 4 := (doubleOfInt_eq_iff (k := 4) (by decide)).mpr rfl
  constructor
  · rfl
  · show Except.ok (StabilizeConfig.mk (doubleOfInt 35) 0.5 0.05 0.08 0.05 (doubleOfInt 4)) = _
    rw [haileron, hintegral]
    rfl

/-- What a sequence of computations that may throw has computed. -/
theorem bind_eq_ok {α β : Type} {x : Except JsonException α} {f : α → Except JsonException β}
    {b : β} (h : x >>= f = .ok b) : ∃ a, x = .ok a ∧ f a = .ok b := by
  cases x with
  | error e => cases h
  | ok a => exact ⟨a, rfl, h⟩

section Construct

variable {m : ConfigManager} {outOfRange : String → Json.OutOfRange}

/-- The limits are the values at their paths. -/
theorem AutopilotUtility.of_construct {u : AutopilotUtility}
    (h : AutopilotUtility.construct m outOfRange = .ok u) :
    let value (T : IntegerType) (jsonPath : String) :=
      m.getValue (outOfRange jsonPath) (.integer T) jsonPath
    value .uint8 "rcplane.autopilot.max_throttle" = .ok u.maxThrottle ∧
      value .int8 "rcplane.autopilot.max_aileron_deflection" = .ok u.maxAileronDeflection ∧
      value .int8 "rcplane.autopilot.max_elevator_deflection" = .ok u.maxElevatorDeflection ∧
      value .int8 "rcplane.autopilot.max_rudder_deflection" = .ok u.maxRudderDeflection := by
  obtain ⟨maxThrottle, hthrottle, h⟩ := bind_eq_ok h
  obtain ⟨maxAileronDeflection, haileron, h⟩ := bind_eq_ok h
  obtain ⟨maxElevatorDeflection, helevator, h⟩ := bind_eq_ok h
  obtain ⟨maxRudderDeflection, hrudder, h⟩ := bind_eq_ok h
  obtain rfl := Except.ok.inj h
  exact ⟨hthrottle, haileron, helevator, hrudder⟩

/-- So is the limit that `StabilizeAutopilot` holds, as a `double`. -/
theorem StabilizeConfig.of_construct {c : StabilizeConfig ℚ}
    (h : StabilizeConfig.construct m outOfRange = .ok c) :
    m.getValue (outOfRange "rcplane.autopilot.max_aileron_deflection") .double
      "rcplane.autopilot.max_aileron_deflection" = .ok c.maxAileronDeflection := by
  obtain ⟨maxAileronDeflection, haileron, h⟩ := bind_eq_ok h
  obtain ⟨kp, -, h⟩ := bind_eq_ok h
  obtain ⟨ki, -, h⟩ := bind_eq_ok h
  obtain ⟨kd, -, h⟩ := bind_eq_ok h
  obtain ⟨tau, -, h⟩ := bind_eq_ok h
  obtain ⟨maxIntegralError, -, h⟩ := bind_eq_ok h
  obtain rfl := Except.ok.inj h
  exact haileron

end Construct

/-! ## The limits and the configuration -/

/-- The number that a path resolves to in the last document loaded. -/
def numberAt (calls : List ConfigCall) (jsonPath : String) : Option ℚ :=
  (resolved calls jsonPath).bind Json.number?

/-- Limits, as numbers. -/
structure Limits where
  maxThrottle : ℚ
  maxAileronDeflection : ℚ
  maxElevatorDeflection : ℚ
  maxRudderDeflection : ℚ

namespace Limits

variable (l : Limits)

/-- The limits are those of the last document loaded. -/
structure Configured (calls : List ConfigCall) : Prop where
  throttle : numberAt calls "rcplane.autopilot.max_throttle" = some l.maxThrottle
  aileron : numberAt calls "rcplane.autopilot.max_aileron_deflection" =
    some l.maxAileronDeflection
  elevator : numberAt calls "rcplane.autopilot.max_elevator_deflection" =
    some l.maxElevatorDeflection
  rudder : numberAt calls "rcplane.autopilot.max_rudder_deflection" = some l.maxRudderDeflection

/-- `AutopilotUtility` holds the limits, and `StabilizeAutopilot` the same aileron limit. -/
structure Unaltered (u : AutopilotUtility) (c : StabilizeConfig ℚ) : Prop where
  throttle : (u.maxThrottle.toNat : ℚ) = l.maxThrottle
  aileron : (u.maxAileronDeflection.toInt : ℚ) = l.maxAileronDeflection
  elevator : (u.maxElevatorDeflection.toInt : ℚ) = l.maxElevatorDeflection
  rudder : (u.maxRudderDeflection.toInt : ℚ) = l.maxRudderDeflection
  agree : (u.maxAileronDeflection.toInt : ℚ) = c.maxAileronDeflection

/-- The limits are values of the types they are read as. -/
structure Fit : Prop where
  throttle : IntegerType.uint8.Holds l.maxThrottle
  aileron : IntegerType.int8.Holds l.maxAileronDeflection
  elevator : IntegerType.int8.Holds l.maxElevatorDeflection
  rudder : IntegerType.int8.Holds l.maxRudderDeflection

end Limits

section Values

variable {calls : List ConfigCall} {jsonPath : String} {x : ℚ}

/-- A number is returned at an integer type, and is the configured one exactly if the type holds
it. -/
theorem getValue_integer_iff (h : numberAt calls jsonPath = some x) (outOfRange : Json.OutOfRange)
    (T : IntegerType) :
    ∃ v, (automaton.after calls).getValue outOfRange (.integer T) jsonPath = .ok v ∧
      ((IntegerType.toInt v : ℚ) = x ↔ T.Holds x) := by
  obtain ⟨j, hj, hx⟩ := Option.bind_eq_some_iff.mp h
  obtain ⟨v, hget, hv⟩ : ∃ v, j.get outOfRange (.integer T) = .ok v ∧
      ((IntegerType.toInt v : ℚ) = x ↔ T.Holds x) := IntegerType.get_eq_iff hx
  exact ⟨v, (getValue_eq_ok calls outOfRange jsonPath).mpr ⟨j, hj, hget⟩, hv⟩

/-- The value returned at an integer type is the configured number exactly if the type holds it. -/
theorem toInt_eq_iff_of_getValue (h : numberAt calls jsonPath = some x)
    {outOfRange : Json.OutOfRange} {T : IntegerType} {v : T.Value}
    (hv : (automaton.after calls).getValue outOfRange (.integer T) jsonPath = .ok v) :
    (IntegerType.toInt v : ℚ) = x ↔ T.Holds x := by
  obtain ⟨w, hw, hiff⟩ := getValue_integer_iff h outOfRange T
  rw [hv] at hw
  rwa [Except.ok.inj hw]

/-- An `int8_t` and a `double` read at one path agree exactly if the `int8_t` holds the number. -/
theorem int8_eq_double_iff (h : numberAt calls jsonPath = some x) {outOfRange : Json.OutOfRange}
    {v : Int8} {d : ℚ}
    (hv : (automaton.after calls).getValue outOfRange (.integer .int8) jsonPath = .ok v)
    (hd : (automaton.after calls).getValue outOfRange .double jsonPath = .ok d) :
    (v.toInt : ℚ) = d ↔ IntegerType.int8.Holds x := by
  obtain ⟨j, hj, hx⟩ := Option.bind_eq_some_iff.mp h
  obtain ⟨w, hget, hw⟩ : ∃ w : ℚ, j.get outOfRange .double = .ok w ∧
      ∀ k : Int8, w = k.toInt ↔ x = k.toInt := get_double_eq_int8_iff hx
  have hd' := (getValue_eq_ok calls outOfRange jsonPath).mpr ⟨j, hj, hget⟩
  rw [hd] at hd'
  obtain rfl := Except.ok.inj hd'
  rw [eq_comm, hw, eq_comm]
  exact toInt_eq_iff_of_getValue h hv

end Values

/-- **Numbers are kept exactly if the types hold them.** Whatever was loaded, and whatever the
conversions yield that C++ leaves open: a number read at an integer type is returned, and is the
configured one exactly if it is a value of the type. The limits of `AutopilotUtility` are the
configured ones and the aileron limit is that of `StabilizeAutopilot`, exactly if the configured
ones are values of their types; for the two components to agree, the aileron limit has to be. -/
theorem limits_unaltered_iff (calls : List ConfigCall) :
    (∀ outOfRange T jsonPath x, numberAt calls jsonPath = some x →
      ∃ v, (automaton.after calls).getValue outOfRange (.integer T) jsonPath = .ok v ∧
        ((IntegerType.toInt v : ℚ) = x ↔ T.Holds x)) ∧
    ∀ outOfRange (l : Limits) u c, l.Configured calls →
      AutopilotUtility.construct (automaton.after calls) outOfRange = .ok u →
      StabilizeConfig.construct (automaton.after calls) outOfRange = .ok c →
        (l.Unaltered u c ↔ l.Fit) ∧
          ((u.maxAileronDeflection.toInt : ℚ) = c.maxAileronDeflection ↔
            IntegerType.int8.Holds l.maxAileronDeflection) := by
  refine ⟨fun outOfRange T _ _ h => getValue_integer_iff h outOfRange T, ?_⟩
  intro outOfRange l u c hl hu hc
  obtain ⟨hthrottle, haileron, helevator, hrudder⟩ := AutopilotUtility.of_construct hu
  have hagree := int8_eq_double_iff hl.aileron haileron (StabilizeConfig.of_construct hc)
  have hthrottle' := toInt_eq_iff_of_getValue hl.throttle hthrottle
  have haileron' := toInt_eq_iff_of_getValue hl.aileron haileron
  have helevator' := toInt_eq_iff_of_getValue hl.elevator helevator
  have hrudder' := toInt_eq_iff_of_getValue hl.rudder hrudder
  refine ⟨⟨fun h => ?_, fun h => ?_⟩, hagree⟩
  · exact ⟨hthrottle'.mp (by exact_mod_cast h.throttle), haileron'.mp h.aileron,
      helevator'.mp h.elevator, hrudder'.mp h.rudder⟩
  · exact ⟨by exact_mod_cast hthrottle'.mpr h.throttle, haileron'.mpr h.aileron,
      helevator'.mpr h.elevator, hrudder'.mpr h.rudder, hagree.mpr h.aileron⟩

/-- An aileron limit of 300 is read as 44. -/
theorem limit_altered :
    ¬ ∀ calls outOfRange T jsonPath x, numberAt calls jsonPath = some x →
      ∀ v, (automaton.after calls).getValue outOfRange (.integer T) jsonPath = .ok v →
        (IntegerType.toInt v : ℚ) = x := by
  intro h
  have hvalue := h [.loadConfig (.document (.object [("rcplane", .object [("autopilot",
    .object [("max_aileron_deflection", .numberUnsigned 300)])])]))] (fun T _ => T.ofInt 0) .int8
    "rcplane.autopilot.max_aileron_deflection" 300 rfl 44 rfl
  have hwrapped : Int8.toInt 44 = 44 := by decide
  simp only [IntegerType.toInt, hwrapped] at hvalue
  norm_num at hvalue

end RcPlane
