import RcPlane.Autopilot.RollOverflow
import RcPlane.Foundation.DoubleBounds

/-!
# The roll controller stays finite

With gains and angles of ordinary size the errors of the roll controller stay bounded over doubles,
however long the run: the filter of the derivative forgets, and the feedback takes away a part of
the integral on every step, which is large against all rounding errors. So no operation overflows.

## Main definitions

* `ModerateGains`, `ModerateAngle`: gains and angles of ordinary size
* `ModerateErrors`: what is kept is bounded

## Main results

* `abs_le_of_feedback`: the feedback keeps the integral bounded
* `ModerateErrors.step`, `moderateErrors_after`: the errors stay bounded
* `roll_defined_iff`: when all steps of a run are defined
-/

namespace RcPlane

open Foundation Foundation.Binary64

/-! ## Ordinary size -/

/-- Gains of ordinary size. -/
structure ModerateGains (c : StabilizeConfig Float) : Prop where
  kp_finite : c.kp.isFinite = true
  kp_le : |value c.kp| ≤ 1000
  kd_finite : c.kd.isFinite = true
  kd_le : |value c.kd| ≤ 1000
  le_ki : 1 / 1000 ≤ value c.ki
  ki_le : value c.ki ≤ 1000
  le_tau : 1 / 1000 ≤ value c.tau
  tau_le : value c.tau ≤ 1000

/-- An angle of at most 1000 degrees. -/
structure ModerateAngle (rollAngle : Float) : Prop where
  isFinite : rollAngle.isFinite = true
  angle_le : |value rollAngle| ≤ 1000

/-- What the roll controller keeps is bounded. -/
structure ModerateErrors (m : StabilizeMemory Float) : Prop extends FiniteErrors m where
  abs_prevRollError_le : |value m.prevRollError| ≤ 1001
  abs_rollDerivativeError_le : |value m.rollDerivativeError| ≤ 2 ^ 36
  abs_rollIntegralError_le : |value m.rollIntegralError| ≤ 2 ^ 60

/-! ## Constants and gains -/

section Step

variable {u : AutopilotUtility} {c : StabilizeConfig Float} {m : StabilizeMemory Float}
  {rollAngle : Float}

theorem value_timestamp :
    0.039 ≤ value (timestamp : Float) ∧ value (timestamp : Float) ≤ 0.041 := by
  decide +kernel

theorem value_two : value ((2 : ℤ) : Float) = 2 := by decide +kernel

theorem value_halfTimestamp : 0 ≤ value ((timestamp : Float) / ((2 : ℤ) : Float)) ∧
    value ((timestamp : Float) / ((2 : ℤ) : Float)) ≤ 0.021 := by
  decide +kernel

/-- The clamped output is within the largest limits. -/
theorem abs_value_bindPidAileronDeflection_le {x : Float} (h : x.isFinite = true) :
    |value (u.bindPidAileronDeflection x)| ≤ 128 := by
  have hlow : -128 ≤ u.maxAileronDeflection.toInt := Int8.le_toInt _
  have hhigh : u.maxAileronDeflection.toInt ≤ 127 := Int8.toInt_le _
  have hmax := limit_small (n := u.maxAileronDeflection.toInt) (by omega) (by omega)
  have hmin := limit_small (n := -u.maxAileronDeflection.toInt) (by omega) (by omega)
  unfold AutopilotUtility.bindPidAileronDeflection
  split_ifs with habove hbelow
  · exact hmax.2
  · exact hmin.2
  · rw [lt_iff hmax.1 h, not_lt] at habove
    rw [lt_iff h hmin.1, not_lt] at hbelow
    exact abs_le.mpr ⟨(neg_le_of_abs_le hmin.2).trans hbelow, habove.trans (le_of_abs_le hmax.2)⟩

/-- The error. -/
theorem ModerateAngle.rollError_within (h : ModerateAngle rollAngle) :
    (rollError rollAngle).isFinite = true ∧ |value (rollError rollAngle)| ≤ 1001 := by
  have hzero : value (0 : Float) = 0 := by decide +kernel
  have hbound : |value (0 : Float) - value rollAngle| ≤ 1000 := by
    rw [hzero, zero_sub, abs_neg]
    exact h.angle_le
  obtain ⟨hfinite, herror⟩ := sub_within (by decide +kernel) h.isFinite hbound (by norm_num)
    (by norm_num)
  exact ⟨hfinite, (abs_le_add hbound herror).trans (by norm_num)⟩

section Gains

variable (hc : ModerateGains c)

include hc

/-- The pole and its divisor are computed from twice the time constant. -/
theorem ModerateGains.twoTau : (((2 : ℤ) : Float) * c.tau).isFinite = true ∧
    0.0019 ≤ value (((2 : ℤ) : Float) * c.tau) ∧ value (((2 : ℤ) : Float) * c.tau) ≤ 2001 := by
  have htau : c.tau.isFinite = true := isFinite_of_value_ne_zero (by linarith [hc.le_tau])
  have hbound : |value ((2 : ℤ) : Float) * value c.tau| ≤ 2000 := by
    rw [value_two, abs_le]
    constructor <;> linarith [hc.le_tau, hc.tau_le]
  obtain ⟨hfinite, herror⟩ := mul_within (limit_small (by omega) (by omega)).1 htau hbound
    (by norm_num) (by norm_num)
  rw [value_two, abs_le] at herror
  exact ⟨hfinite, by linarith [hc.le_tau], by linarith [hc.tau_le]⟩

theorem ModerateGains.tauDivisor_within : (tauDivisor c).isFinite = true ∧
    |value (tauDivisor c) - (value (((2 : ℤ) : Float) * c.tau) + value (timestamp : Float))| ≤
      1 / 2 ^ 38 := by
  obtain ⟨hfinite, hlow, hhigh⟩ := hc.twoTau
  obtain ⟨hlow', hhigh'⟩ := value_timestamp
  have hbound : |value (((2 : ℤ) : Float) * c.tau) + value (timestamp : Float)| ≤ 2002 := by
    rw [abs_le]
    constructor <;> linarith
  obtain ⟨hsum, herror⟩ := add_within hfinite isFinite_timestamp hbound (by norm_num)
    (by norm_num)
  exact ⟨hsum, herror.trans (by norm_num)⟩

theorem ModerateGains.tauDivisor_pos : 0 < value (tauDivisor c) := by
  obtain ⟨-, hlow, -⟩ := hc.twoTau
  obtain ⟨-, hsum⟩ := hc.tauDivisor_within
  rw [abs_le] at hsum
  linarith [value_timestamp.1]

/-- The filter forgets. -/
theorem ModerateGains.pole_within :
    ((((2 : ℤ) : Float) * c.tau - timestamp) / tauDivisor c).isFinite = true ∧
      |value ((((2 : ℤ) : Float) * c.tau - timestamp) / tauDivisor c)| ≤ 1 - 1 / 2 ^ 16 := by
  obtain ⟨hfinite, hlow, hhigh⟩ := hc.twoTau
  obtain ⟨hlow', hhigh'⟩ := value_timestamp
  obtain ⟨hdivisor, hsum⟩ := hc.tauDivisor_within
  have hbound : |value (((2 : ℤ) : Float) * c.tau) - value (timestamp : Float)| ≤ 2002 := by
    rw [abs_le]
    constructor <;> linarith
  obtain ⟨hnumerator, hdifference⟩ := sub_within hfinite isFinite_timestamp hbound (by norm_num)
    (by norm_num)
  rw [abs_le] at hsum hdifference
  have hpos := hc.tauDivisor_pos
  have hquotient : |value (((2 : ℤ) : Float) * c.tau - timestamp) / value (tauDivisor c)| ≤
      1 - 1 / 2 ^ 15 := by
    rw [abs_div, abs_of_pos hpos, div_le_iff₀ hpos, abs_le]
    constructor <;> linarith
  obtain ⟨hpole, herror⟩ := div_within hnumerator hdivisor hpos.ne'
    (hquotient.trans (by norm_num : _ ≤ (1 : ℚ))) le_rfl (by norm_num)
  exact ⟨hpole, (abs_le_add hquotient herror).trans (by norm_num)⟩

/-- A change of the error is scaled by little. -/
theorem ModerateGains.gain_within :
    (((2 : ℤ) : Float) / tauDivisor c).isFinite = true ∧
      |value (((2 : ℤ) : Float) / tauDivisor c)| ≤ 52 := by
  obtain ⟨hfinite, hlow, hhigh⟩ := hc.twoTau
  obtain ⟨hlow', hhigh'⟩ := value_timestamp
  obtain ⟨hdivisor, hsum⟩ := hc.tauDivisor_within
  rw [abs_le] at hsum
  have hpos := hc.tauDivisor_pos
  have hquotient : |value ((2 : ℤ) : Float) / value (tauDivisor c)| ≤ 51 := by
    rw [value_two, abs_div, abs_of_pos hpos, div_le_iff₀ hpos, abs_two]
    linarith
  obtain ⟨hgain, herror⟩ := div_within (limit_small (by omega) (by omega)).1 hdivisor hpos.ne'
    hquotient (by norm_num) (by norm_num)
  exact ⟨hgain, (abs_le_add hquotient herror).trans (by norm_num)⟩

end Gains

/-! ## One step -/

/-- The feedback takes a part of the integral away, and what it adds of the other terms and of
errors is small against it. -/
theorem abs_le_of_feedback
    {T ratio ki integral unsaturated output excess gain feedback stored : ℚ}
    (hT : 0.039 ≤ T ∧ T ≤ 0.041) (hnonneg : 0 ≤ ratio) (hle : ratio ≤ 41)
    (hscale : ratio * ki = T) (hintegral : |integral| ≤ 2 ^ 60 + 2 ^ 10)
    (hoffset : |unsaturated - ki * integral| ≤ 2 ^ 47) (hclamped : |output| ≤ 128)
    (hcut : |excess - (output - unsaturated)| ≤ 2 ^ 22) (hexcess : |excess| ≤ 2 ^ 73)
    (hgain : |gain - ratio| ≤ 1 / 2 ^ 45) (hproduct : |feedback - gain * excess| ≤ 2 ^ 28)
    (hsum : |stored - (integral + feedback)| ≤ 2 ^ 29) : |stored| ≤ 2 ^ 60 := by
  have hkept : |(1 - T) * integral| ≤ 0.961 * (2 ^ 60 + 2 ^ 10) := by
    rw [abs_mul, abs_of_nonneg (by linarith)]
    exact mul_le_mul (by linarith) hintegral (abs_nonneg _) (by norm_num)
  have hgain' : |(gain - ratio) * excess| ≤ 1 / 2 ^ 45 * 2 ^ 73 := by
    rw [abs_mul]
    exact mul_le_mul hgain hexcess (abs_nonneg _) (by norm_num)
  have hrest : |ratio * (excess - (output - unsaturated) + output -
      (unsaturated - ki * integral))| ≤ 41 * 2 ^ 48 := by
    rw [abs_mul, abs_of_nonneg hnonneg]
    refine mul_le_mul hle ?_ (abs_nonneg _) (by norm_num)
    obtain ⟨h1, h2⟩ := abs_le.mp hoffset
    obtain ⟨h3, h4⟩ := abs_le.mp hclamped
    obtain ⟨h5, h6⟩ := abs_le.mp hcut
    exact abs_le.mpr ⟨by linarith, by linarith⟩
  -- the integral term of the output cancels a part `T` of the integral
  have hsplit : stored = (stored - (integral + feedback)) + (feedback - gain * excess) +
      (gain - ratio) * excess + (1 - T) * integral +
      ratio * (excess - (output - unsaturated) + output - (unsaturated - ki * integral)) := by
    rw [← hscale]
    ring
  obtain ⟨h1, h2⟩ := abs_le.mp hkept
  obtain ⟨h3, h4⟩ := abs_le.mp hgain'
  obtain ⟨h5, h6⟩ := abs_le.mp hrest
  obtain ⟨h7, h8⟩ := abs_le.mp hproduct
  obtain ⟨h9, h10⟩ := abs_le.mp hsum
  exact abs_le.mpr ⟨by linarith, by linarith⟩

variable (hc : ModerateGains c) (hm : ModerateErrors m) (ha : ModerateAngle rollAngle)

include hm ha

/-- The change of the error. -/
theorem errorDifference_within : (rollError rollAngle - m.prevRollError).isFinite = true ∧
    |value (rollError rollAngle - m.prevRollError)| ≤ 2003 := by
  obtain ⟨hfinite, herror⟩ := ha.rollError_within
  have hbound : |value (rollError rollAngle) - value m.prevRollError| ≤ 2002 :=
    (abs_sub _ _).trans (by linarith [hm.abs_prevRollError_le])
  obtain ⟨hdifference, hround⟩ := sub_within hfinite hm.prevRollError hbound (by norm_num)
    (by norm_num)
  exact ⟨hdifference, (abs_le_add hbound hround).trans (by norm_num)⟩

/-- The integral moves by at most 2^10 before the feedback. -/
theorem rollIntegral_within : (rollIntegral m rollAngle).isFinite = true ∧
    |value (rollIntegral m rollAngle)| ≤ 2 ^ 60 + 2 ^ 10 := by
  obtain ⟨hfinite, herror⟩ := ha.rollError_within
  obtain ⟨hhalf, hhalf'⟩ := value_halfTimestamp
  have hsum : |value (rollError rollAngle) + value m.prevRollError| ≤ 2002 :=
    (abs_add_le _ _).trans (by linarith [hm.abs_prevRollError_le])
  obtain ⟨hfinite', hround⟩ := add_within hfinite hm.prevRollError hsum (by norm_num)
    (by norm_num)
  have hsum' := abs_le_add hsum hround
  have hproduct : |value ((timestamp : Float) / ((2 : ℤ) : Float)) *
      value (rollError rollAngle + m.prevRollError)| ≤ 43 := by
    rw [abs_mul, abs_of_nonneg hhalf]
    calc _ ≤ 0.021 * (2002 + 2002 / 2 ^ 51 : ℚ) :=
          mul_le_mul hhalf' hsum' (abs_nonneg _) (by norm_num)
      _ ≤ 43 := by norm_num
  obtain ⟨hfinite'', hround'⟩ := mul_within isFinite_halfTimestamp hfinite' hproduct (by norm_num)
    (by norm_num)
  have hstep := abs_le_add hproduct hround'
  have hbound : |value m.rollIntegralError + value (timestamp / ((2 : ℤ) : Float) *
      (rollError rollAngle + m.prevRollError))| ≤ 2 ^ 60 + 44 :=
    (abs_add_le _ _).trans (by linarith [hm.abs_rollIntegralError_le])
  obtain ⟨hintegral, hround''⟩ := add_within hm.rollIntegralError hfinite'' hbound (by norm_num)
    (by norm_num)
  exact ⟨hintegral, (abs_le_add hbound hround'').trans (by norm_num)⟩

include hc

/-- The filtered derivative stays below its bound. -/
theorem rollDerivative_within : (rollDerivative c m rollAngle).isFinite = true ∧
    |value (rollDerivative c m rollAngle)| ≤ 2 ^ 36 := by
  obtain ⟨hpole, hpole'⟩ := hc.pole_within
  obtain ⟨hgain, hgain'⟩ := hc.gain_within
  obtain ⟨hdifference, hdifference'⟩ := errorDifference_within hm ha
  have hdecay : |value ((((2 : ℤ) : Float) * c.tau - timestamp) / tauDivisor c) *
      value m.rollDerivativeError| ≤ (1 - 1 / 2 ^ 16) * 2 ^ 36 := by
    rw [abs_mul]
    exact mul_le_mul hpole' hm.abs_rollDerivativeError_le (abs_nonneg _) (by norm_num)
  have hmove : |value (((2 : ℤ) : Float) / tauDivisor c) *
      value (rollError rollAngle - m.prevRollError)| ≤ 52 * 2003 := by
    rw [abs_mul]
    exact mul_le_mul hgain' hdifference' (abs_nonneg _) (by norm_num)
  obtain ⟨hfirst, hround⟩ := mul_within hpole hm.rollDerivativeError hdecay (by norm_num)
    (by norm_num)
  obtain ⟨hsecond, hround'⟩ := mul_within hgain hdifference hmove (by norm_num) (by norm_num)
  have hbound : |value ((((2 : ℤ) : Float) * c.tau - timestamp) / tauDivisor c *
        m.rollDerivativeError) +
      value (((2 : ℤ) : Float) / tauDivisor c * (rollError rollAngle - m.prevRollError))| ≤
      2 ^ 36 - 2 ^ 19 :=
    (abs_add_le _ _).trans ((add_le_add (abs_le_add hdecay hround)
      (abs_le_add hmove hround')).trans (by norm_num))
  obtain ⟨hsum, hround''⟩ := add_within hfirst hsecond hbound (by norm_num) (by norm_num)
  exact ⟨hsum, (abs_le_add hbound hround'').trans (by norm_num)⟩

/-- The output before the clamp is the integral term up to the other two. -/
theorem rollUnsaturatedOutput_within : (rollUnsaturatedOutput c m rollAngle).isFinite = true ∧
    |value (rollUnsaturatedOutput c m rollAngle) -
      value c.ki * value (rollIntegral m rollAngle)| ≤ 2 ^ 47 ∧
    |value (rollUnsaturatedOutput c m rollAngle)| ≤ 2 ^ 72 := by
  obtain ⟨hfinite, herror⟩ := ha.rollError_within
  obtain ⟨hintegral, hintegral'⟩ := rollIntegral_within hm ha
  obtain ⟨hderivative, hderivative'⟩ := rollDerivative_within hc hm ha
  have hki : c.ki.isFinite = true := isFinite_of_value_ne_zero (by linarith [hc.le_ki])
  have hki' : |value c.ki| ≤ 1000 := abs_le.mpr ⟨by linarith [hc.le_ki], hc.ki_le⟩
  have hp : |value c.kp * value (rollError rollAngle)| ≤ 1000 * 1001 := by
    rw [abs_mul]
    exact mul_le_mul hc.kp_le herror (abs_nonneg _) (by norm_num)
  have hi : |value c.ki * value (rollIntegral m rollAngle)| ≤ 1000 * (2 ^ 60 + 2 ^ 10) := by
    rw [abs_mul]
    exact mul_le_mul hki' hintegral' (abs_nonneg _) (by norm_num)
  have hd : |value c.kd * value (rollDerivative c m rollAngle)| ≤ 1000 * 2 ^ 36 := by
    rw [abs_mul]
    exact mul_le_mul hc.kd_le hderivative' (abs_nonneg _) (by norm_num)
  obtain ⟨hp1, hp2⟩ := mul_within hc.kp_finite hfinite hp (by norm_num) (by norm_num)
  obtain ⟨hi1, hi2⟩ := mul_within hki hintegral hi (by norm_num) (by norm_num)
  obtain ⟨hd1, hd2⟩ := mul_within hc.kd_finite hderivative hd (by norm_num) (by norm_num)
  have htwo : |value (c.kp * rollError rollAngle) + value (c.ki * rollIntegral m rollAngle)| ≤
      2 ^ 71 :=
    (abs_add_le _ _).trans
      ((add_le_add (abs_le_add hp hp2) (abs_le_add hi hi2)).trans (by norm_num))
  obtain ⟨htwo1, htwo2⟩ := add_within hp1 hi1 htwo (by norm_num) (by norm_num)
  have hall : |value (c.kp * rollError rollAngle + c.ki * rollIntegral m rollAngle) +
      value (c.kd * rollDerivative c m rollAngle)| ≤ 2 ^ 71 + 2 ^ 48 :=
    (abs_add_le _ _).trans
      ((add_le_add (abs_le_add htwo htwo2) (abs_le_add hd hd2)).trans (by norm_num))
  obtain ⟨hall1, hall2⟩ := add_within htwo1 hd1 hall (by norm_num) (by norm_num)
  refine ⟨hall1, ?_, (abs_le_add hall hall2).trans (by norm_num)⟩
  -- everything but the integral term, and the errors of five roundings
  obtain ⟨hp3, hp4⟩ := abs_le.mp (abs_le_add hp hp2)
  obtain ⟨hd3, hd4⟩ := abs_le.mp (abs_le_add hd hd2)
  obtain ⟨hi3, hi4⟩ := abs_le.mp hi2
  obtain ⟨htwo3, htwo4⟩ := abs_le.mp htwo2
  obtain ⟨hall3, hall4⟩ := abs_le.mp hall2
  have hsplit : rollUnsaturatedOutput c m rollAngle = c.kp * rollError rollAngle +
    c.ki * rollIntegral m rollAngle + c.kd * rollDerivative c m rollAngle := rfl
  rw [hsplit]
  exact abs_le.mpr ⟨by linarith, by linarith⟩

/-- What the clamp cuts off. -/
theorem excess_within :
    (rollOutput u c m rollAngle - rollUnsaturatedOutput c m rollAngle).isFinite = true ∧
    |value (rollOutput u c m rollAngle - rollUnsaturatedOutput c m rollAngle) -
      (value (rollOutput u c m rollAngle) - value (rollUnsaturatedOutput c m rollAngle))| ≤
      2 ^ 22 ∧
    |value (rollOutput u c m rollAngle - rollUnsaturatedOutput c m rollAngle)| ≤ 2 ^ 73 := by
  obtain ⟨hfinite, -, hoverall⟩ := rollUnsaturatedOutput_within hc hm ha
  have hclamped := abs_value_bindPidAileronDeflection_le (u := u) hfinite
  have hbound : |value (rollOutput u c m rollAngle) - value (rollUnsaturatedOutput c m rollAngle)| ≤
      2 ^ 72 + 2 ^ 7 :=
    (abs_sub _ _).trans ((add_le_add hclamped hoverall).trans (by norm_num))
  obtain ⟨hexcess, hround⟩ := sub_within (isFinite_bindPidAileronDeflection hfinite) hfinite hbound
    (by norm_num) (by norm_num)
  exact ⟨hexcess, hround.trans (by norm_num), (abs_le_add hbound hround).trans (by norm_num)⟩

omit hm ha in
/-- The gain of the feedback. -/
theorem ModerateGains.feedback_within : ((timestamp : Float) / c.ki).isFinite = true ∧
    |value ((timestamp : Float) / c.ki) - value (timestamp : Float) / value c.ki| ≤ 1 / 2 ^ 45 ∧
    0 ≤ value (timestamp : Float) / value c.ki ∧ value (timestamp : Float) / value c.ki ≤ 41 := by
  obtain ⟨hlow, hhigh⟩ := value_timestamp
  have hpos : 0 < value c.ki := by linarith [hc.le_ki]
  have hnonneg : 0 ≤ value (timestamp : Float) / value c.ki := div_nonneg (by linarith) hpos.le
  have hle : value (timestamp : Float) / value c.ki ≤ 41 := by
    rw [div_le_iff₀ hpos]
    linarith [hc.le_ki]
  have hbound : |value (timestamp : Float) / value c.ki| ≤ 41 := by rwa [abs_of_nonneg hnonneg]
  obtain ⟨hfinite, hround⟩ := div_within isFinite_timestamp (isFinite_of_value_ne_zero hpos.ne')
    hpos.ne' hbound (by norm_num) (by norm_num)
  exact ⟨hfinite, hround.trans (by norm_num), hnonneg, hle⟩

/-- The feedback takes a part of the integral away. -/
theorem storedIntegral_within (u : AutopilotUtility) :
    (rollIntegral m rollAngle + timestamp / c.ki *
      (rollOutput u c m rollAngle - rollUnsaturatedOutput c m rollAngle)).isFinite = true ∧
    |value (rollIntegral m rollAngle + timestamp / c.ki *
      (rollOutput u c m rollAngle - rollUnsaturatedOutput c m rollAngle))| ≤ 2 ^ 60 := by
  obtain ⟨hintegral, hintegral'⟩ := rollIntegral_within hm ha
  obtain ⟨hunsaturated, hoffset, hoverall⟩ := rollUnsaturatedOutput_within hc hm ha
  obtain ⟨hexcess, hcut, hexcess'⟩ := excess_within (u := u) hc hm ha
  obtain ⟨hgain, hgain', hnonneg, hle⟩ := hc.feedback_within
  have hclamped := abs_value_bindPidAileronDeflection_le (u := u) hunsaturated
  have hgain'' : |value ((timestamp : Float) / c.ki)| ≤ 42 :=
    (abs_le_add ((abs_of_nonneg hnonneg).trans_le hle) hgain').trans (by norm_num)
  have hproduct : |value ((timestamp : Float) / c.ki) *
      value (rollOutput u c m rollAngle - rollUnsaturatedOutput c m rollAngle)| ≤ 42 * 2 ^ 73 := by
    rw [abs_mul]
    exact mul_le_mul hgain'' hexcess' (abs_nonneg _) (by norm_num)
  obtain ⟨hfeedback, hround⟩ := mul_within hgain hexcess hproduct (by norm_num) (by norm_num)
  have hbound : |value (rollIntegral m rollAngle) + value (timestamp / c.ki *
      (rollOutput u c m rollAngle - rollUnsaturatedOutput c m rollAngle))| ≤ 2 ^ 80 :=
    (abs_add_le _ _).trans
      ((add_le_add hintegral' (abs_le_add hproduct hround)).trans (by norm_num))
  obtain ⟨hstored, hround'⟩ := add_within hintegral hfeedback hbound (by norm_num) (by norm_num)
  refine ⟨hstored, ?_⟩
  have hki : value c.ki ≠ 0 := by linarith [hc.le_ki]
  have hscale : value (timestamp : Float) / value c.ki * value c.ki = value (timestamp : Float) :=
    div_mul_cancel₀ _ hki
  exact abs_le_of_feedback value_timestamp hnonneg hle hscale hintegral' hoffset hclamped hcut
    hexcess' hgain' (hround.trans (by norm_num)) (hround'.trans (by norm_num))

/-- A step is defined, -/
theorem rollDefined_of_moderate (outOfRange : Conversion → Float → Int8) :
    RollDefined u c m ⟨outOfRange, rollAngle⟩ := by
  have hki : value c.ki ≠ 0 := by linarith [hc.le_ki]
  obtain ⟨hunsaturated, -, -⟩ := rollUnsaturatedOutput_within hc hm ha
  exact ⟨hc.tauDivisor_pos.ne', hki, (storedIntegral_within hc hm ha u).1,
    (rollDerivative_within hc hm ha).1, isFinite_bindPidAileronDeflection hunsaturated,
    fun h => absurd h hki⟩

end Step

/-! ## Runs -/

section Runs

variable {promote : FloatPattern → Float} {u : AutopilotUtility} {c : StabilizeConfig Float}

theorem moderateErrors_initial : ModerateErrors StabilizeMemory.initial := by
  have hzero : value (0 : Float) = 0 := by decide +kernel
  have hle : ∀ bound : ℚ, 0 ≤ bound → |value (0 : Float)| ≤ bound := by
    intro bound h
    rwa [hzero, abs_zero]
  exact ⟨finiteErrors_initial, hle _ (by norm_num), hle _ (by norm_num), hle _ (by norm_num)⟩

/-- and keeps the errors bounded. -/
theorem ModerateErrors.step {m : StabilizeMemory Float} {call : TriggerCall Float}
    (hc : ModerateGains c) (hm : ModerateErrors m)
    (ha : ModerateAngle (promote call.imuPacket.gyroX)) :
    ModerateErrors (StabilizeAutopilot.trigger promote u c m call).1 := by
  obtain ⟨herror, herror'⟩ := ha.rollError_within
  obtain ⟨hderivative, hderivative'⟩ := rollDerivative_within hc hm ha
  obtain ⟨hstored, hstored'⟩ := storedIntegral_within hc hm ha u
  exact ⟨⟨herror, hderivative, hstored⟩, herror', hderivative', hstored'⟩

theorem moderateErrors_after (hc : ModerateGains c) (calls : List (TriggerCall Float))
    (hangles : ∀ call ∈ calls, ModerateAngle (promote call.imuPacket.gyroX)) :
    ModerateErrors ((StabilizeAutopilot.automaton promote u c).after calls) := by
  induction calls using List.reverseRecOn with
  | nil => exact moderateErrors_initial
  | append_singleton calls call ih =>
    rw [Automaton.after_snoc]
    apply ModerateErrors.step hc
    · exact ih fun call' h => hangles call' (List.mem_append_left _ h)
    · exact hangles call (List.mem_append_right _ (List.mem_singleton_self call))

/-- **The roll controller over doubles.** Along a run of the autopilot every step divides by no zero
and stores and returns numbers exactly when the run is empty, or neither divisor is zero, all roll
angles are numbers and no operation overflows. It does so in every run with gains and angles of
ordinary size. -/
theorem roll_defined_iff (calls : List (TriggerCall Float)) :
    (RunDefined promote u c calls ↔
      calls = [] ∨ GainsInRange c ∧ ∀ pre call post, calls = pre ++ call :: post →
        StepInRange u c ((StabilizeAutopilot.automaton promote u c).after pre)
          (promote call.imuPacket.gyroX)) ∧
    (ModerateGains c → (∀ call ∈ calls, ModerateAngle (promote call.imuPacket.gyroX)) →
      RunDefined promote u c calls) := by
  refine ⟨runDefined_iff calls, fun hc hangles pre call post hsplit => ?_⟩
  have hm : ModerateErrors ((StabilizeAutopilot.automaton promote u c).after pre) := by
    apply moderateErrors_after hc
    intro call' h
    exact hangles call' (hsplit ▸ List.mem_append_left _ h)
  have ha : ModerateAngle (promote call.imuPacket.gyroX) :=
    hangles call (hsplit ▸ List.mem_append_right _ List.mem_cons_self)
  exact rollDefined_of_moderate hc hm ha _

/-- The shipped gains are moderate, so that two steps at a roll angle of 90 degrees are defined. -/
theorem roll_defined_shipped : RunDefined (fun _ => 90) AutopilotConfig.shipped.utility shippedGains
    [levelCall, levelCall] := by
  apply (roll_defined_iff _).2
  · constructor <;> decide +kernel
  · intro call _
    constructor <;> decide +kernel

end Runs

end RcPlane
