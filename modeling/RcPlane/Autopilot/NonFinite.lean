import RcPlane.Foundation.BinaryFormat
import RcPlane.Autopilot.Envelope
import RcPlane.Autopilot.Reengagement
import RcPlane.Autopilot.ExtendedRoll

/-!
# Angles that are not numbers

An angle of the IMU packet is the pattern of a `float`, and nothing checks that it is one of a
number. The roll controller adds what it gets to its integral: the clamp does not hold not-a-number
back, and the feedback of an infinite clamping error makes an infinite integral not-a-number. So one
such angle decides all deflections after it. The pitch controller narrows its integral to `int8_t`
before it keeps it, and the previous error is forgotten one call later.

## Main definitions

* `FloatPattern.toExtended`, `FloatPattern.IsFinite`: a `float` converted to `double`
* `Double.Absorbs`: not-a-number is the result of every operation on it

## Main results

* `AutopilotManager.aileron_of_isNaN`: after not-a-number, in any arithmetic
* `AutopilotManager.aileron_of_not_isNum`, `AutopilotManager.abs_aileron_le_of_isNum`: after an
  angle that is not a number, and as long as all angles are numbers
* `AutopilotManager.pitchOutput_isNum_iff`: only two angles decide the pitch output
-/

namespace RcPlane

open Foundation Foundation.Extended

/-! ## Floats -/

/-- The value of a `float` as a `double`, which is exact. -/
def FloatPattern.toExtended (b : FloatPattern) : Extended ℚ :=
  BinaryFormat.binary32.value b.toNat

/-- The `float` is a number. -/
def FloatPattern.IsFinite (b : FloatPattern) : Prop := BinaryFormat.binary32.IsFinite b.toNat

instance (b : FloatPattern) : Decidable (FloatPattern.IsFinite b) :=
  inferInstanceAs (Decidable (BinaryFormat.binary32.IsFinite b.toNat))

theorem FloatPattern.isNum_toExtended (b : FloatPattern) :
    (FloatPattern.toExtended b).IsNum ↔ FloatPattern.IsFinite b :=
  BinaryFormat.isNum_value _ _

/-! ## Not-a-number in any arithmetic -/

/-- Not-a-number is the result of the operations on it, it is not less or greater than anything,
and C++ does not define its conversion to `int8_t`. -/
structure Double.Absorbs {D : Type} [Double D] (isNaN : D → Prop) : Prop where
  add_left : ∀ {x} (y : D), isNaN x → isNaN (x + y)
  add_right : ∀ (x : D) {y}, isNaN y → isNaN (x + y)
  sub_left : ∀ {x} (y : D), isNaN x → isNaN (x - y)
  sub_right : ∀ (x : D) {y}, isNaN y → isNaN (x - y)
  mul_right : ∀ (x : D) {y}, isNaN y → isNaN (x * y)
  not_lt_left : ∀ {x} (y : D), isNaN x → ¬ x < y
  not_lt_right : ∀ (x : D) {y}, isNaN y → ¬ x < y
  toInt8? : ∀ {x : D}, isNaN x → Double.toInt8? x = none

section Absorbs

variable {D : Type} [Double D] {isNaN : D → Prop} (u : AutopilotUtility) (c : StabilizeConfig D)
  {m : StabilizeMemory D} {rollAngle : D}

theorem Double.Absorbs.rollIntegral_of_memory (h : Double.Absorbs isNaN)
    (hm : isNaN m.rollIntegralError) (rollAngle : D) : isNaN (rollIntegral m rollAngle) :=
  h.add_left _ hm

theorem Double.Absorbs.rollIntegral_of_angle (h : Double.Absorbs isNaN) (m : StabilizeMemory D)
    (hangle : isNaN rollAngle) : isNaN (rollIntegral m rollAngle) := by
  have herror : isNaN (rollError rollAngle) := h.sub_right _ hangle
  exact h.add_right _ (h.mul_right _ (h.add_left _ herror))

/-- The output contains the integral, and the clamp lets not-a-number through. -/
theorem Double.Absorbs.rollOutput (h : Double.Absorbs isNaN)
    (hintegral : isNaN (rollIntegral m rollAngle)) : isNaN (rollOutput u c m rollAngle) := by
  have houtput : isNaN (rollUnsaturatedOutput c m rollAngle) :=
    h.add_left _ (h.add_right _ (h.mul_right _ hintegral))
  rw [RcPlane.rollOutput, AutopilotUtility.bindPidAileronDeflection,
    if_neg (h.not_lt_right _ houtput), if_neg (h.not_lt_left _ houtput)]
  exact houtput

theorem Double.Absorbs.rollIntegralError (h : Double.Absorbs isNaN)
    (hintegral : isNaN (rollIntegral m rollAngle)) (outOfRange : Conversion → D → Int8) :
    isNaN (computeRollToAileronDeflection u c m rollAngle outOfRange).1.rollIntegralError :=
  h.add_left _ hintegral

end Absorbs

/-- Not-a-number absorbs in the exact arithmetic. -/
theorem absorbs_nan : Double.Absorbs (D := Extended ℚ) (· = nan) where
  add_left y h := h ▸ nan_add y
  add_right x _ h := h ▸ add_nan x
  sub_left y h := h ▸ nan_sub y
  sub_right x _ h := h ▸ sub_nan x
  mul_right x _ h := h ▸ mul_nan x
  not_lt_left y h := by
    subst h
    cases y <;> exact not_false
  not_lt_right x _ h := by
    subst h
    cases x <;> exact not_false
  toInt8? h := h ▸ rfl

/-! ## The roll integral in the exact arithmetic -/

/-- The clamp cuts an infinity off to a number. -/
theorem bindPidAileronDeflection_ofSign (u : AutopilotUtility) {s : SignType} (hs : s ≠ 0) :
    ∃ a, u.bindPidAileronDeflection (ofSign s : Extended ℚ) = num a := by
  cases s with
  | zero => exact absurd rfl hs
  | pos => exact ⟨_, if_pos trivial⟩
  | neg => exact ⟨_, (if_neg not_false).trans (if_pos trivial)⟩

/-- Once the integral is not a number, what the step stores is not-a-number: of an infinite output
the clamp cuts off the opposite infinity. -/
theorem rollIntegralError_eq_nan (u : AutopilotUtility) (c : StabilizeConfig ℚ)
    {m : StabilizeMemory (Extended ℚ)} {rollAngle : Extended ℚ}
    (h : ¬ (rollIntegral m rollAngle).IsNum) (outOfRange : Conversion → Extended ℚ → Int8) :
    (computeRollToAileronDeflection u c.num m rollAngle outOfRange).1.rollIntegralError = nan := by
  obtain ⟨s, hs⟩ := exists_eq_ofSign h
  show rollIntegral m rollAngle + timestamp / c.num.ki *
    (rollOutput u c.num m rollAngle - rollUnsaturatedOutput c.num m rollAngle) = nan
  have hki : c.num.ki * rollIntegral m rollAngle = ofSign (SignType.sign c.ki * s) := by
    rw [hs]
    exact num_mul_ofSign _ _
  -- the output is the infinity of the integral's part in it, or not-a-number
  have houtput : rollUnsaturatedOutput c.num m rollAngle = ofSign (SignType.sign c.ki * s) ∨
      rollUnsaturatedOutput c.num m rollAngle = nan := by
    rw [rollUnsaturatedOutput, hki]
    rcases add_ofSign (c.num.kp * rollError rollAngle) (SignType.sign c.ki * s) with hsum | hsum
    · rw [hsum]
      exact ofSign_add _ _
    · rw [hsum]
      exact Or.inr (nan_add _)
  by_cases hzero : SignType.sign c.ki * s = 0
  · have hnan : rollUnsaturatedOutput c.num m rollAngle = nan := by
      rw [hzero] at houtput
      exact houtput.elim id id
    rw [hnan, sub_nan, mul_nan, add_nan]
  rcases houtput with houtput | houtput
  · obtain ⟨a, ha⟩ := bindPidAileronDeflection_ofSign u hzero
    have hclamp : rollOutput u c.num m rollAngle = num a := by rw [rollOutput, houtput, ha]
    have hne : c.ki ≠ 0 := by
      rintro hki
      rw [hki, sign_zero, zero_mul] at hzero
      exact hzero rfl
    have hgain : (timestamp : Extended ℚ) / c.num.ki = num (timestamp / c.ki) := num_div_num hne _
    have hsign : SignType.sign (timestamp / c.ki) * -(SignType.sign c.ki * s) = -s := by
      rcases hne.lt_or_gt with hlt | hgt
      · rw [sign_neg hlt, sign_neg (div_neg_of_pos_of_neg timestamp_pos hlt)]
        cases s <;> rfl
      · rw [sign_pos hgt, sign_pos (div_pos timestamp_pos hgt)]
        cases s <;> rfl
    rw [hclamp, houtput, hgain, num_sub_ofSign, num_mul_ofSign, hsign, hs, ofSign_add_neg]
  · rw [houtput, sub_nan, mul_nan, add_nan]

/-- An angle that is not a number, or such an integral, makes the integral not a number. -/
theorem not_isNum_rollIntegral {m : StabilizeMemory (Extended ℚ)} {rollAngle : Extended ℚ}
    (h : ¬ rollAngle.IsNum) : ¬ (rollIntegral m rollAngle).IsNum := fun hnum =>
  h (isNum_sub.mp (isNum_add.mp (isNum_mul.mp (isNum_add.mp hnum).2).2).1).2

/-! ## The aileron along a run -/

/-- The constants of a configuration of rationals, in the larger arithmetic. -/
def AutopilotConfig.num (c : AutopilotConfig ℚ) : AutopilotConfig (Extended ℚ) :=
  ⟨c.utility, c.stabilize.num⟩

namespace AutopilotManager

section Aileron

theorem assistedCalls_append_cons {D : Type} (pre post : List (TriggerCall D))
    {call : TriggerCall D} (h : call.rcRxPacket.assisted) :
    assistedCalls (pre ++ call :: post) = assistedCalls pre ++ call :: assistedCalls post := by
  rw [assistedCalls, List.filter_append, List.filter_cons_of_pos (by simpa using h)]
  rfl

variable {D : Type} [Double D] {isNaN : D → Prop} (promote : FloatPattern → D)
  (c : AutopilotConfig D)

/-- What an assisted call sets in the integral, and every call keeps, is there ever after. -/
theorem isNaN_rollIntegralError_after (h : Double.Absorbs isNaN) {bad : TriggerCall D}
    (hbad : bad.rcRxPacket.assisted)
    (hset : ∀ m, isNaN (StabilizeAutopilot.trigger promote c.utility c.stabilize m
      bad).1.rollIntegralError) (pre post : List (TriggerCall D)) :
    isNaN ((automaton promote c).after
      (pre ++ bad :: post)).stabilizeAutopilot.rollIntegralError := by
  rw [stabilizeAutopilot_after, assistedCalls_append_cons pre post hbad]
  refine Automaton.after_of_latch (P := fun m : StabilizeMemory D => isNaN m.rollIntegralError)
    hset ?_ _ _
  intro m call hm
  exact h.rollIntegralError c.utility c.stabilize (h.rollIntegral_of_memory hm _) call.outOfRange

/-- With not-a-number in the integral an assisted call answers with what the platform makes of
it. -/
theorem aileron_of_isNaN_integral (h : Double.Absorbs isNaN) {s : AutopilotManager D}
    (hs : s.Consistent) (hm : isNaN s.stabilizeAutopilot.rollIntegralError) {call : TriggerCall D}
    (hcall : call.rcRxPacket.assisted) :
    ∃ x, isNaN x ∧
      (trigger promote c s call).2.aileronDeflection = call.outOfRange .roll x := by
  refine ⟨_, h.rollOutput c.utility c.stabilize (h.rollIntegral_of_memory hm
    (promote call.imuPacket.gyroX)), ?_⟩
  rw [trigger_of_assisted hs hcall, StabilizeAutopilot.trigger_aileronDeflection]
  have hnone := h.toInt8? (h.rollOutput c.utility c.stabilize (h.rollIntegral_of_memory hm
    (promote call.imuPacket.gyroX)))
  rw [computeRollToAileronDeflection, narrow, hnone, Option.getD_none]

/-- After an assisted call at a roll angle that is not-a-number, every assisted call converts
not-a-number, whatever the calls in between are. -/
theorem aileron_of_isNaN (h : Double.Absorbs isNaN) {bad call : TriggerCall D}
    (hbad : bad.rcRxPacket.assisted) (hangle : isNaN (promote bad.imuPacket.gyroX))
    (hcall : call.rcRxPacket.assisted) (pre post : List (TriggerCall D)) :
    ∃ x, isNaN x ∧ (trigger promote c ((automaton promote c).after (pre ++ bad :: post))
      call).2.aileronDeflection = call.outOfRange .roll x := by
  refine aileron_of_isNaN_integral promote c h (consistent_after _) ?_ hcall
  refine isNaN_rollIntegralError_after promote c h hbad (fun m => ?_) pre post
  exact h.rollIntegralError c.utility c.stabilize (h.rollIntegral_of_angle m hangle) bad.outOfRange

end Aileron

section Exact

variable (promote : FloatPattern → Extended ℚ) {c : AutopilotConfig ℚ}

/-- After an assisted call at a roll angle that is not a number, be it an infinity, every assisted
call converts not-a-number. -/
theorem aileron_of_not_isNum {bad call : TriggerCall (Extended ℚ)}
    (hbad : bad.rcRxPacket.assisted) (hangle : ¬ (promote bad.imuPacket.gyroX).IsNum)
    (hcall : call.rcRxPacket.assisted) (pre post : List (TriggerCall (Extended ℚ))) :
    (trigger promote c.num ((automaton promote c.num).after (pre ++ bad :: post))
      call).2.aileronDeflection = call.outOfRange .roll nan := by
  obtain ⟨x, rfl, haileron⟩ := aileron_of_isNaN_integral promote c.num absorbs_nan
    (consistent_after (pre ++ bad :: post)) (isNaN_rollIntegralError_after promote c.num absorbs_nan
      hbad (fun m => rollIntegralError_eq_nan c.utility c.stabilize
        (not_isNum_rollIntegral hangle) bad.outOfRange) pre post) hcall
  exact haileron

/-- A step of the roll controller from a memory of rationals, at an angle that is a number. -/
theorem abs_rollController_le (hki : c.stabilize.ki ≠ 0) (htau : 2 * c.stabilize.tau + 0.04 ≠ 0)
    (hlimit : 0 ≤ c.utility.maxAileronDeflection.toInt) (m : StabilizeMemory ℚ)
    (call : AngleCall (Extended ℚ)) (hangle : call.angle.IsNum) :
    |((rollController c.utility c.stabilize.num).step m.num call).2.toInt| ≤
      c.utility.maxAileronDeflection.toInt := by
  have hstep := computeRollToAileronDeflection_num c.utility m call.rational.angle hki htau
    call.outOfRange
  have hvalue : .num call.rational.angle = call.angle := num_value hangle
  rw [hvalue] at hstep
  have hanswer : ((rollController c.utility c.stabilize.num).step m.num call).2 =
      (computeRollToAileronDeflection c.utility c.stabilize m call.rational.angle
        fun place q => call.outOfRange place (.num q)).2 := congrArg Prod.snd hstep
  rw [hanswer]
  exact abs_computeRollToAileronDeflection_le hlimit _ _ _

/-- As long as all roll angles of the assisted calls are numbers, the aileron is within its
limit. -/
theorem abs_aileron_le_of_isNum (hki : c.stabilize.ki ≠ 0) (htau : 2 * c.stabilize.tau + 0.04 ≠ 0)
    (hlimit : 0 ≤ c.utility.maxAileronDeflection.toInt) {pre : List (TriggerCall (Extended ℚ))}
    (hpre : ∀ call ∈ assistedCalls pre, (promote call.imuPacket.gyroX).IsNum)
    {call : TriggerCall (Extended ℚ)} (hcall : call.rcRxPacket.assisted)
    (hangle : (promote call.imuPacket.gyroX).IsNum) :
    |(trigger promote c.num ((automaton promote c.num).after pre)
      call).2.aileronDeflection.toInt| ≤ c.utility.maxAileronDeflection.toInt := by
  have hroll : ∀ angle ∈ (assistedCalls pre).map (·.roll promote), angle.angle.IsNum := by
    intro angle hmem
    obtain ⟨call', hcall', rfl⟩ := List.mem_map.mp hmem
    exact hpre call' hcall'
  -- the memory is one of rationals, as far as the roll controller looks at it
  have hsame := (trigger_roll promote c.utility c.stabilize.num (assistedCalls pre)).1
  rw [(rollController_num (u := c.utility) hki htau hroll).1] at hsame
  have hstep := (hsame.step promote c.utility c.stabilize.num call).2
  have hle := abs_rollController_le hki htau hlimit
    ((rollController c.utility c.stabilize).after
      (((assistedCalls pre).map (·.roll promote)).map (·.rational)))
    (call.roll promote) hangle
  rw [← hstep] at hle
  rw [trigger_of_assisted (consistent_after pre) hcall, stabilizeAutopilot_after]
  exact hle

end Exact

/-! ## The elevator along a run -/

section Elevator

/-- The error that the pitch controller remembers is that of the last assisted call. -/
theorem prevPitchError_after {D : Type} [Double D] (promote : FloatPattern → D)
    (c : AutopilotConfig D) (calls : List (TriggerCall D)) :
    ((automaton promote c).after calls).stabilizeAutopilot.prevPitchError =
      ((assistedCalls calls).getLast?.map fun last =>
        pitchError (promote last.imuPacket.gyroY)).getD 0 := by
  rw [stabilizeAutopilot_after]
  rcases List.eq_nil_or_concat' (assistedCalls calls) with hnil | ⟨rest, last, hlast⟩
  · rw [hnil]
    rfl
  · rw [hlast, Automaton.after_snoc, List.getLast?_concat]
    rfl

variable (promote : FloatPattern → Extended ℚ) {c : AutopilotConfig ℚ}

/-- **The pitch controller recovers.** In every run the value that an assisted call converts for
the elevator is a number exactly when its own pitch angle is one, and that of the last assisted call
before it: the integral is one whatever went into it. -/
theorem pitchOutput_isNum_iff (pre : List (TriggerCall (Extended ℚ)))
    (call : TriggerCall (Extended ℚ)) :
    (pitchOutput c.num.stabilize ((automaton promote c.num).after pre).stabilizeAutopilot
        (promote call.imuPacket.gyroY) call.outOfRange).IsNum ↔
      (promote call.imuPacket.gyroY).IsNum ∧
        ∀ last ∈ (assistedCalls pre).getLast?, (promote last.imuPacket.gyroY).IsNum := by
  have herror : ∀ x : Extended ℚ, (pitchError x).IsNum ↔ x.IsNum := fun x =>
    isNum_sub.trans (and_iff_right (isNum_num 0))
  have hprev : ((automaton promote
      c.num).after pre).stabilizeAutopilot.prevPitchError.IsNum ↔
      ∀ last ∈ (assistedCalls pre).getLast?, (promote last.imuPacket.gyroY).IsNum := by
    rw [prevPitchError_after]
    cases (assistedCalls pre).getLast? with
    | none => simp
    | some last => simp [herror]
  rw [pitchOutput, isNum_add, isNum_add, isNum_mul, isNum_mul, isNum_mul, isNum_sub, herror, hprev]
  constructor
  · rintro ⟨⟨⟨-, hangle⟩, -⟩, -, -, hlast⟩
    exact ⟨hangle, hlast⟩
  · rintro ⟨hangle, hlast⟩
    exact ⟨⟨⟨isNum_num _, hangle⟩, isNum_num _, isNum_num _⟩, isNum_num _, hangle, hlast⟩

end Elevator

end AutopilotManager

end RcPlane
