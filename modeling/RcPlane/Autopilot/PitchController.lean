import RcPlane.Autopilot.RollController

/-!
# The pitch controller

The runs of `computePitchToElevatorDeflection` over exact rationals. The integral passes through
`int8_t` twice on every step, and the output is narrowed before it is clamped: fractions are lost,
and a value past the range of `int8_t` may come back with the other sign.

## Main definitions

* `pitchController`: the runs of the pitch controller
* `saturatingSum`: the sum of the errors, limited at every step
* `IntegralKept`: the sums that both conversions leave alone
* `wrapped`: a call whose out-of-range conversions reduce modulo 256
* `ElevatorKept`: the truncated outputs that the wrap does not bring to the wrong limit

## Main results

* `pitchIntegral_eq_sum_iff`: the integral is the saturating sum exactly when every step's sum is
  left alone
* `elevator_saturates_iff`: the elevator is the clamped output exactly when no output wraps to the
  wrong limit
-/

namespace RcPlane

open Foundation

/-! ## Runs -/

section Runs

variable {D : Type} [Double D] (promote : FloatPattern → D) (u : AutopilotUtility)
  (c : StabilizeConfig D)

/-- The runs of `computePitchToElevatorDeflection` from construction. -/
def pitchController : Automaton (StabilizeMemory D) (AngleCall D) Int8 where
  start := StabilizeMemory.initial
  step m call := computePitchToElevatorDeflection c m call.angle call.outOfRange

/-- The part of a call of the autopilot that its pitch controller reads. -/
def TriggerCall.pitch (call : TriggerCall D) : AngleCall D :=
  ⟨call.outOfRange, promote call.imuPacket.gyroY⟩

/-- Two memories agree on what the pitch controller keeps. -/
structure SamePitch (m m' : StabilizeMemory D) : Prop where
  prevPitchError : m.prevPitchError = m'.prevPitchError
  pitchIntegralError : m.pitchIntegralError = m'.pitchIntegralError

/-- The pitch controller reads and writes its own memory only. -/
theorem SamePitch.step {m m' : StabilizeMemory D} (h : SamePitch m m') (call : TriggerCall D) :
    SamePitch (StabilizeAutopilot.trigger promote u c m call).1
        ((pitchController c).step m' (call.pitch promote)).1 ∧
      (StabilizeAutopilot.trigger promote u c m call).2.elevatorDeflection =
        u.bindPidElevatorDeflection ((pitchController c).step m' (call.pitch promote)).2 := by
  obtain ⟨prevRollError, prevPitchError, derivative, integral, pitchIntegral⟩ := m
  obtain ⟨prevRollError', prevPitchError', derivative', integral', pitchIntegral'⟩ := m'
  obtain ⟨rfl, rfl⟩ := h
  exact ⟨⟨rfl, rfl⟩, rfl⟩

/-- The autopilot's elevator deflections are the bound answers of its pitch controller. -/
theorem trigger_pitch (calls : List (TriggerCall D)) :
    SamePitch ((StabilizeAutopilot.automaton promote u c).after calls)
        ((pitchController c).after (calls.map (·.pitch promote))) ∧
      ((StabilizeAutopilot.automaton promote u c).outputs calls).map (·.elevatorDeflection) =
        ((pitchController c).outputs (calls.map (·.pitch promote))).map
          u.bindPidElevatorDeflection :=
  Automaton.after_outputs_map (M := StabilizeAutopilot.automaton promote u c)
    (N := pitchController c) (R := SamePitch) (A := fun _ => True)
    (g := (·.pitch promote)) (p := (·.elevatorDeflection)) (q := u.bindPidElevatorDeflection)
    ⟨rfl, rfl⟩ (fun _ _ call _ hm => SamePitch.step promote u c hm call) fun _ _ => trivial

end Runs

/-! ## The integral -/

/-- The sum of the errors of a run, limited at every step. -/
def saturatingSum (limit : ℚ) (angles : List ℚ) : ℚ :=
  angles.foldl (fun sum angle => clamp limit (sum - angle)) 0

theorem saturatingSum_snoc (limit : ℚ) (angles : List ℚ) (angle : ℚ) :
    saturatingSum limit (angles ++ [angle]) = clamp limit (saturatingSum limit angles - angle) := by
  rw [saturatingSum, List.foldl_append, List.foldl_cons, List.foldl_nil, saturatingSum]

/-- The rational is an integer. -/
def IsWhole (x : ℚ) : Prop := (truncate x : ℚ) = x

/-- C++ defines the conversion of the rational to `int8_t`. -/
def Convertible (x : ℚ) : Prop := -129 < x ∧ x < 128

instance (x : ℚ) : Decidable (IsWhole x) := inferInstanceAs (Decidable (_ = _))
instance (x : ℚ) : Decidable (Convertible x) := inferInstanceAs (Decidable (_ ∧ _))

/-- The sum that the two conversions leave alone: within the limit it is an integer, and past the
limit the limit is an integer and the narrowed sum is past it on the same side. -/
def IntegralKept (c : StabilizeConfig ℚ) (outOfRange : ℚ → Int8) (sum : ℚ) : Prop :=
  if |sum| ≤ c.maxIntegralError then IsWhole sum
  else IsWhole c.maxIntegralError ∧
    (Convertible sum ∨ c.maxIntegralError = 0 ∨
      0 < sum ∧ c.maxIntegralError ≤ (outOfRange sum).toInt ∨
      sum < 0 ∧ ((outOfRange sum).toInt : ℚ) ≤ -c.maxIntegralError)

section Integral

variable {c : StabilizeConfig ℚ} {outOfRange : ℚ → Int8} {sum : ℚ}

/-- A convertible rational is narrowed to its truncation. -/
theorem narrow_of_convertible (h : Convertible sum) :
    (narrow outOfRange sum).toInt = truncate sum := by
  -- what C++ converts is what truncates to an `int8_t`
  have hmem : -128 ≤ truncate sum ∧ truncate sum ≤ 127 := by
    rcases le_total 0 sum with hs | hs
    · rw [truncate_of_nonneg hs]
      have h₁ : 0 ≤ ⌊sum⌋ := Int.floor_nonneg.mpr hs
      have h₂ : ⌊sum⌋ < 128 := Int.floor_lt.mpr (by exact_mod_cast h.2)
      omega
    · rw [truncate_of_nonpos hs]
      have h₁ : ⌈sum⌉ ≤ 0 := Int.ceil_le.mpr (by exact_mod_cast hs)
      have h₂ : -129 < ⌈sum⌉ := Int.lt_ceil.mpr (by exact_mod_cast h.1)
      omega
  have hr : -129 < sum ∧ sum < 128 := h
  simp only [narrow, Double.toInt8?, if_pos hr, Option.getD_some]
  exact int8_ofInt_of_mem hmem.1 hmem.2

theorem narrow_of_not_convertible (h : ¬ Convertible sum) :
    narrow outOfRange sum = outOfRange sum := by
  have hr : ¬ (-129 < sum ∧ sum < 128) := h
  simp only [narrow, Double.toInt8?, if_neg hr, Option.getD_none]

/-- The bind limits its argument to the truncated limit. -/
theorem bindIntegralError_eq_clamp (h₀ : 0 ≤ c.maxIntegralError) (h₁ : c.maxIntegralError ≤ 127)
    (outOfRange : Conversion → ℚ → Int8) (integralError : Int8) :
    (bindIntegralError c outOfRange integralError).toInt =
      clamp (truncate c.maxIntegralError) integralError.toInt := by
  have hlimit : 0 ≤ truncate c.maxIntegralError := truncate_nonneg h₀
  -- an integer is past the limit exactly when it is past the truncated limit
  have hlt : ∀ n : ℤ, c.maxIntegralError < n ↔ truncate c.maxIntegralError < n := by
    intro n
    rw [truncate_of_nonneg h₀, Int.floor_lt]
  unfold bindIntegralError
  split_ifs with h₂ h₃
  · have hle : truncate c.maxIntegralError ≤ integralError.toInt := ((hlt _).mp h₂).le
    rw [narrow_of_mem (by linarith) h₁, clamp_of_le hlimit hle]
  · have hle : integralError.toInt ≤ -truncate c.maxIntegralError := by
      have := (hlt (-integralError.toInt)).mp (by push_cast; linarith)
      omega
    rw [narrow_of_mem (by linarith) (by linarith), clamp_of_le_neg hlimit hle, truncate_neg]
  · have h₄ := mt (hlt integralError.toInt).mpr h₂
    have h₅ := mt (hlt (-integralError.toInt)).mpr (by push_cast; linarith)
    have hwithin : |integralError.toInt| ≤ truncate c.maxIntegralError :=
      abs_le.mpr ⟨by omega, not_lt.mp h₄⟩
    rw [clamp_of_abs_le hwithin]

/-- An integer limited to a truncated limit reaches the limit itself only if that is an
integer. -/
theorem clamp_truncate_eq_limit_iff {limit : ℚ} (h : 0 ≤ limit) (n : ℤ) :
    ((clamp (truncate limit) n : ℤ) : ℚ) = limit ↔
      IsWhole limit ∧ (limit ≤ n ∨ limit = 0) := by
  have hlimit := truncate_nonneg h
  have hcases : IsWhole limit → (truncate limit ≤ n ∨ truncate limit = 0 ↔
      limit ≤ n ∨ limit = 0) := by
    intro hwhole
    have hcast : (truncate limit : ℚ) = limit := hwhole
    rw [← Int.cast_le (R := ℚ), ← Int.cast_eq_zero (α := ℚ), hcast]
  constructor
  · intro heq
    have hreach : clamp (truncate limit) n ≤ truncate limit :=
      (abs_le.mp (abs_clamp_le hlimit n)).2
    -- the limited value is at most the truncated limit, so that is no less than the limit
    have hwhole : IsWhole limit := by
      apply le_antisymm
      · rw [truncate_of_nonneg h]
        exact Int.floor_le limit
      · calc limit = ((clamp (truncate limit) n : ℤ) : ℚ) := heq.symm
          _ ≤ (truncate limit : ℚ) := by exact_mod_cast hreach
    refine ⟨hwhole, (hcases hwhole).mp ((clamp_eq_limit_iff hlimit).mp ?_)⟩
    exact_mod_cast heq.trans hwhole.symm
  · rintro ⟨hwhole, hn⟩
    rw [(clamp_eq_limit_iff hlimit).mpr ((hcases hwhole).mpr hn)]
    exact hwhole

theorem clamp_truncate_eq_neg_limit_iff {limit : ℚ} (h : 0 ≤ limit) (n : ℤ) :
    ((clamp (truncate limit) n : ℤ) : ℚ) = -limit ↔
      IsWhole limit ∧ (n ≤ -limit ∨ limit = 0) := by
  -- the lower limit is the upper one of the mirrored value
  have hmirror := clamp_truncate_eq_limit_iff h (-n)
  rw [clamp_neg (truncate_nonneg h)] at hmirror
  push_cast at hmirror
  rw [neg_eq_iff_eq_neg, le_neg] at hmirror
  exact hmirror

/-- With an integer limit, a convertible sum past the limit is narrowed to an integer past it. -/
theorem le_narrow_iff_of_lt (hwhole : IsWhole c.maxIntegralError)
    (h : c.maxIntegralError < sum) :
    c.maxIntegralError ≤ (narrow outOfRange sum).toInt ↔
      Convertible sum ∨ c.maxIntegralError ≤ (outOfRange sum).toInt := by
  by_cases hconv : Convertible sum
  · refine iff_of_true ?_ (Or.inl hconv)
    rw [narrow_of_convertible hconv, ← hwhole]
    exact_mod_cast truncate_mono h.le
  · rw [narrow_of_not_convertible hconv]
    simp [hconv]

theorem narrow_le_iff_of_lt (hwhole : IsWhole c.maxIntegralError)
    (h : sum < -c.maxIntegralError) :
    ((narrow outOfRange sum).toInt : ℚ) ≤ -c.maxIntegralError ↔
      Convertible sum ∨ ((outOfRange sum).toInt : ℚ) ≤ -c.maxIntegralError := by
  by_cases hconv : Convertible sum
  · refine iff_of_true ?_ (Or.inl hconv)
    rw [narrow_of_convertible hconv, ← hwhole, ← Int.cast_neg, ← truncate_neg]
    exact_mod_cast truncate_mono h.le
  · rw [narrow_of_not_convertible hconv]
    simp [hconv]

/-- **One step of the integral** is the limited sum exactly when the conversions leave the sum
alone. -/
theorem pitchIntegral_eq_clamp_iff (h₀ : 0 ≤ c.maxIntegralError) (h₁ : c.maxIntegralError ≤ 127)
    (m : StabilizeMemory ℚ) (angle : ℚ) (outOfRange : Conversion → ℚ → Int8) :
    pitchIntegral c m angle outOfRange =
        clamp c.maxIntegralError (m.pitchIntegralError - angle) ↔
      IntegralKept c (outOfRange .integralArgument) (m.pitchIntegralError - angle) := by
  have hsum : m.pitchIntegralError + pitchError angle = m.pitchIntegralError - angle := by
    rw [pitchError, zero_sub, sub_eq_add_neg]
  rw [pitchIntegral, hsum, bindIntegralError_eq_clamp h₀ h₁, IntegralKept]
  generalize m.pitchIntegralError - angle = sum
  generalize outOfRange .integralArgument = outOfRange
  by_cases h : |sum| ≤ c.maxIntegralError
  · -- within the limit the bind does nothing: the sum has to survive its truncation
    obtain ⟨h₂, h₃⟩ := abs_le.mp h
    rw [if_pos h, clamp_of_abs_le h, narrow_of_mem (by linarith) (by linarith), clamp_of_abs_le,
      IsWhole]
    rw [abs_le, ← truncate_neg]
    exact ⟨truncate_mono h₂, truncate_mono h₃⟩
  · -- past the limit the bind has to return the limit of that side, unaltered
    rw [if_neg h]
    rcases lt_abs.mp (not_le.mp h) with h | h
    · have hpos : 0 < sum := h₀.trans_lt h
      rw [clamp_of_le h₀ h.le, clamp_truncate_eq_limit_iff h₀]
      refine and_congr_right fun hwhole => ?_
      rw [le_narrow_iff_of_lt hwhole h]
      simp only [hpos, hpos.not_gt, true_and, false_and, or_false]
      tauto
    · have hneg : sum < 0 := by linarith
      rw [clamp_of_le_neg h₀ (by linarith), clamp_truncate_eq_neg_limit_iff h₀]
      refine and_congr_right fun hwhole => ?_
      rw [narrow_le_iff_of_lt hwhole (by linarith)]
      simp only [hneg, hneg.not_gt, true_and, false_and, false_or]
      tauto

/-- **The pitch integral.** Along a run the integral is the saturating sum of the errors exactly
when the conversions leave every sum alone. -/
theorem pitchIntegral_eq_sum_iff (h₀ : 0 ≤ c.maxIntegralError) (h₁ : c.maxIntegralError ≤ 127)
    (calls : List (AngleCall ℚ)) :
    (∀ pre post, calls = pre ++ post →
      ((pitchController c).after pre).pitchIntegralError =
        saturatingSum c.maxIntegralError (pre.map (·.angle))) ↔
    ∀ pre call post, calls = pre ++ call :: post →
      IntegralKept c (call.outOfRange .integralArgument)
        (saturatingSum c.maxIntegralError (pre.map (·.angle)) - call.angle) := by
  refine Automaton.forall_prefix_iff (M := pitchController c)
    (f := StabilizeMemory.pitchIntegralError)
    (J := fun pre => saturatingSum c.maxIntegralError (pre.map (·.angle))) rfl ?_ calls
  intro m pre call hm
  have hstep := pitchIntegral_eq_clamp_iff h₀ h₁ m call.angle call.outOfRange
  rw [List.map_append, List.map_singleton, saturatingSum_snoc, ← hm]
  exact hstep

/-- The shipped limits, at a whole degree, then at a large one. -/
theorem pitchIntegral_shipped :
    (∀ pre post, [⟨fun _ _ => 0, 2⟩, ⟨fun _ _ => 0, 60⟩] = pre ++ post →
      ((pitchController AutopilotConfig.shipped.stabilize).after pre).pitchIntegralError =
        saturatingSum AutopilotConfig.shipped.stabilize.maxIntegralError
          (pre.map (·.angle))) ↔
    ∀ pre (call : AngleCall ℚ) post,
      [⟨fun _ _ => 0, 2⟩, ⟨fun _ _ => 0, 60⟩] = pre ++ call :: post →
      IntegralKept AutopilotConfig.shipped.stabilize (call.outOfRange .integralArgument)
        (saturatingSum AutopilotConfig.shipped.stabilize.maxIntegralError (pre.map (·.angle)) -
          call.angle) :=
  pitchIntegral_eq_sum_iff (by norm_num [AutopilotConfig.shipped])
    (by norm_num [AutopilotConfig.shipped]) _

/-- A lasting error of half a degree is lost on every step. -/
theorem pitchIntegral_half_degree :
    ¬ ∀ pre post, [⟨fun _ _ => 0, -0.5⟩, ⟨fun _ _ => 0, -0.5⟩] = pre ++ post →
      ((pitchController AutopilotConfig.shipped.stabilize).after pre).pitchIntegralError =
        saturatingSum AutopilotConfig.shipped.stabilize.maxIntegralError
          (pre.map (·.angle)) := by
  intro h
  have hlast := h _ [] (List.append_nil _).symm
  revert hlast
  decide +kernel

end Integral

/-! ## The elevator -/

/-- A call whose out-of-range conversions reduce the truncated value modulo 256. -/
def wrapped (packets : RcRxPacket × ImuPacket) : TriggerCall ℚ :=
  ⟨fun _ x => Int8.ofInt (truncate x), packets.1, packets.2⟩

/-- The truncated output that is narrowed to the right side of the limit: it is in the range of
`int8_t`, or the limit is zero, or it wraps to a value that is past the limit on its own side. -/
def ElevatorKept (limit output : ℤ) : Prop :=
  -128 ≤ output ∧ output ≤ 127 ∨ limit = 0 ∨
    127 < output ∧ limit ≤ output.bmod 256 ∨ output < -128 ∧ output.bmod 256 ≤ -limit

instance (limit output : ℤ) : Decidable (ElevatorKept limit output) :=
  inferInstanceAs (Decidable (_ ∨ _))

section Elevator

variable (promote : FloatPattern → ℚ) (u : AutopilotUtility) (c : StabilizeConfig ℚ)

/-- The output of the pitch controller before it is narrowed, at a call after a run. -/
def wrappedOutput (pre : List (RcRxPacket × ImuPacket)) (packets : RcRxPacket × ImuPacket) : ℚ :=
  pitchOutput c ((StabilizeAutopilot.automaton promote u c).after (pre.map wrapped))
    (promote packets.2.gyroY) (wrapped packets).outOfRange

variable {u}

theorem bindPidElevatorDeflection_eq_clamp (hM : 0 ≤ u.maxElevatorDeflection.toInt)
    (value : Int8) :
    (u.bindPidElevatorDeflection value).toInt =
      clamp u.maxElevatorDeflection.toInt value.toInt := by
  have hl := int8_toInt_bounds u.maxElevatorDeflection
  unfold AutopilotUtility.bindPidElevatorDeflection
  split_ifs with h₁ h₂
  · rw [clamp_of_le hM h₁.le]
  · rw [int8_ofInt_of_mem (by omega) (by omega), clamp_of_le_neg hM h₂.le]
  · rw [clamp_of_abs_le (abs_le.mpr ⟨not_lt.mp h₂, not_lt.mp h₁⟩)]

/-- With wrapping conversions every value is narrowed to its truncation modulo 256. -/
theorem narrow_wrapped (x : ℚ) :
    (narrow (fun x => Int8.ofInt (truncate x)) x).toInt = (truncate x).bmod 256 := by
  rw [← Int8.toInt_ofInt]
  simp only [narrow, Double.toInt8?]
  split_ifs with h
  · rfl
  · rfl

/-- Truncation and the limit commute, when the limit is an integer. -/
theorem truncate_clamp {limit : ℤ} (h : 0 ≤ limit) (x : ℚ) :
    truncate (clamp (limit : ℚ) x) = clamp limit (truncate x) := by
  have h' : (0 : ℚ) ≤ limit := by exact_mod_cast h
  rcases le_total |x| limit with hx | hx
  · obtain ⟨h₁, h₂⟩ := abs_le.mp hx
    have hmem := truncate_mem_of_mem (a := -limit) (b := limit) (by exact_mod_cast h₁) h₂
    rw [clamp_of_abs_le hx, clamp_of_abs_le (abs_le.mpr hmem)]
  · -- past the limit the truncation is past it too, being monotone
    rcases le_abs'.mp hx with hx | hx
    · have hle : truncate x ≤ -limit := by
        have := truncate_mono hx
        rwa [truncate_neg, truncate_intCast] at this
      rw [clamp_of_le_neg h' hx, clamp_of_le_neg h hle, truncate_neg, truncate_intCast]
    · have hle : limit ≤ truncate x := by
        have := truncate_mono hx
        rwa [truncate_intCast] at this
      rw [clamp_of_le h' hx, clamp_of_le h hle, truncate_intCast]

/-- The wrapped value is limited as the value itself exactly when it is narrowed to the right side
of the limit. -/
theorem clamp_bmod_eq_iff {limit output : ℤ} (h₀ : 0 ≤ limit) (h₁ : limit ≤ 127) :
    clamp limit (output.bmod 256) = clamp limit output ↔ ElevatorKept limit output := by
  unfold ElevatorKept
  by_cases hrange : -128 ≤ output ∧ output ≤ 127
  · -- nothing wraps
    have hsame : output.bmod 256 = output := by
      rw [← Int8.toInt_ofInt, int8_ofInt_of_mem hrange.1 hrange.2]
    simp [hrange, hsame]
  · -- the output itself is past the limit, so the wrapped value has to be past the same one
    rcases lt_or_ge 127 output with h | h
    · rw [clamp_of_le h₀ (by omega : limit ≤ output), clamp_eq_limit_iff h₀]
      have hnot : ¬ output < -128 := by omega
      simp only [hrange, h, hnot, true_and, false_and, false_or, or_false]
      exact or_comm
    · have hlow : output < -128 := by omega
      rw [clamp_of_le_neg h₀ (by omega : output ≤ -limit), clamp_eq_neg_limit_iff h₀]
      have hnot : ¬ 127 < output := by omega
      simp only [hrange, hlow, hnot, true_and, false_and, false_or]
      exact or_comm

/-- One call, in any state: the elevator is the clamped output exactly when the narrowing keeps
it. -/
theorem trigger_elevator_iff (hM : 0 ≤ u.maxElevatorDeflection.toInt) (m : StabilizeMemory ℚ)
    (packets : RcRxPacket × ImuPacket) :
    (StabilizeAutopilot.trigger promote u c m (wrapped packets)).2.elevatorDeflection.toInt =
        truncate (clamp (u.maxElevatorDeflection.toInt : ℚ)
          (pitchOutput c m (promote packets.2.gyroY) (wrapped packets).outOfRange)) ↔
      ElevatorKept u.maxElevatorDeflection.toInt
        (truncate (pitchOutput c m (promote packets.2.gyroY) (wrapped packets).outOfRange)) := by
  have hl := (int8_toInt_bounds u.maxElevatorDeflection).2
  rw [StabilizeAutopilot.trigger_elevatorDeflection, bindPidElevatorDeflection_eq_clamp hM,
    truncate_clamp hM, ← clamp_bmod_eq_iff hM hl, ← narrow_wrapped]
  rfl

/-- **Elevator saturation.** Along a run the elevator is the clamped output, truncated, exactly
when the narrowing keeps the output of every call on the right side of the limit. -/
theorem elevator_saturates_iff (hM : 0 ≤ u.maxElevatorDeflection.toInt)
    (packets : List (RcRxPacket × ImuPacket)) :
    (∀ pre p post, packets = pre ++ p :: post →
      (StabilizeAutopilot.trigger promote u c
          ((StabilizeAutopilot.automaton promote u c).after (pre.map wrapped))
          (wrapped p)).2.elevatorDeflection.toInt =
        truncate (clamp (u.maxElevatorDeflection.toInt : ℚ)
          (wrappedOutput promote u c pre p))) ↔
    ∀ pre p post, packets = pre ++ p :: post →
      ElevatorKept u.maxElevatorDeflection.toInt (truncate (wrappedOutput promote u c pre p)) := by
  constructor
  · intro h pre p post hp
    exact (trigger_elevator_iff promote c hM _ p).mp (h pre p post hp)
  · intro h pre p post hp
    exact (trigger_elevator_iff promote c hM _ p).mpr (h pre p post hp)

/-- The shipped configuration, pitched down by seventy degrees. -/
theorem elevator_saturates_shipped :
    (∀ pre p post, [(({}, { gyroY := 0xC28C0000 }) : RcRxPacket × ImuPacket)] = pre ++ p :: post →
      (StabilizeAutopilot.trigger (fun b => if b = 0xC28C0000 then -70 else 0)
          AutopilotConfig.shipped.utility AutopilotConfig.shipped.stabilize
          ((StabilizeAutopilot.automaton (fun b => if b = 0xC28C0000 then -70 else 0)
            AutopilotConfig.shipped.utility AutopilotConfig.shipped.stabilize).after
              (pre.map wrapped)) (wrapped p)).2.elevatorDeflection.toInt =
        truncate (clamp (AutopilotConfig.shipped.utility.maxElevatorDeflection.toInt : ℚ)
          (wrappedOutput (fun b => if b = 0xC28C0000 then -70 else 0)
            AutopilotConfig.shipped.utility AutopilotConfig.shipped.stabilize pre p))) ↔
    ∀ pre p post, [(({}, { gyroY := 0xC28C0000 }) : RcRxPacket × ImuPacket)] = pre ++ p :: post →
      ElevatorKept AutopilotConfig.shipped.utility.maxElevatorDeflection.toInt
        (truncate (wrappedOutput (fun b => if b = 0xC28C0000 then -70 else 0)
          AutopilotConfig.shipped.utility AutopilotConfig.shipped.stabilize pre p)) :=
  elevator_saturates_iff _ _ (by decide) _

/-- With a proportional gain of two, seventy degrees nose down call for an output of 145, which
is narrowed to -111: the elevator goes to the wrong limit. -/
theorem elevator_wraps :
    ¬ ∀ pre p post, [(({}, { gyroY := 0xC28C0000 }) : RcRxPacket × ImuPacket)] = pre ++ p :: post →
      (StabilizeAutopilot.trigger (fun b => if b = 0xC28C0000 then -70 else 0)
          AutopilotConfig.shipped.utility { AutopilotConfig.shipped.stabilize with kp := 2 }
          ((StabilizeAutopilot.automaton (fun b => if b = 0xC28C0000 then -70 else 0)
            AutopilotConfig.shipped.utility
            { AutopilotConfig.shipped.stabilize with kp := 2 }).after (pre.map wrapped))
          (wrapped p)).2.elevatorDeflection.toInt =
        truncate (clamp (AutopilotConfig.shipped.utility.maxElevatorDeflection.toInt : ℚ)
          (wrappedOutput (fun b => if b = 0xC28C0000 then -70 else 0)
            AutopilotConfig.shipped.utility
            { AutopilotConfig.shipped.stabilize with kp := 2 } pre p)) := by
  intro h
  have hfirst := h [] _ [] rfl
  revert hfirst
  decide +kernel

end Elevator

end RcPlane
