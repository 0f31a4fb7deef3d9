import RcPlane.Mcu.Sampling
import RcPlane.Autopilot.AutopilotManager

/-!
# The path of a stick

From the pulse widths of one iteration of `loop` to the manual autopilot's answer. The position is
reduced to eight bits on the microcontroller and its rescale once more on the other side, and
neither end clamps, so the path is monotone only on the pulses that wrap at neither end. No pulse
is a width of 0, which wraps to a throttle position of 156.

## Main definitions

* `stickPath`: the answer to the packet of one iteration
* `MonotonePath`, `FailSafePath`: what the path is expected to do
* `MotorWindow`, `DeflectionWindow`: the pulses that wrap at neither end

## Main results

* `motorSpeed_mono`, `deflection_mono`: the path is monotone on the windows
* `monotonePath_and_failSafePath_iff`: outside them it is not, unless every limit is zero
-/

namespace RcPlane

open Foundation

/-- The manual autopilot's answer to the packet of one iteration. -/
def stickPath (u : AutopilotUtility) (i : LoopInput) : ControlSurfacePacket :=
  ManualAutopilot.trigger u i.rcRxPacket

/-- On every channel a longer pulse gives no smaller output. -/
structure MonotonePath (u : AutopilotUtility) : Prop where
  motor : ∀ i j : LoopInput, i.motor ≤ j.motor →
    (stickPath u i).motorSpeed ≤ (stickPath u j).motorSpeed
  aileron : ∀ i j : LoopInput, i.aileron ≤ j.aileron →
    (stickPath u i).aileronDeflection ≤ (stickPath u j).aileronDeflection
  elevator : ∀ i j : LoopInput, i.elevator ≤ j.elevator →
    (stickPath u i).elevatorDeflection ≤ (stickPath u j).elevatorDeflection
  rudder : ∀ i j : LoopInput, i.rudder ≤ j.rudder →
    (stickPath u i).rudderDeflection ≤ (stickPath u j).rudderDeflection

/-- A missing throttle pulse stops the motor. -/
def FailSafePath (u : AutopilotUtility) : Prop :=
  ∀ i : LoopInput, i.motor = 0 → (stickPath u i).motorSpeed = 0

/-! ## The windows -/

/-- The throttle pulses whose position is not negative and fits eight bits, as does its rescale to
the limit. -/
structure MotorWindow (limit : UInt8) (pulse : UInt32) : Prop where
  lower : 991 ≤ pulse.toNat
  upper : pulse.toNat ≤ 3559
  rescale : (pulse.toNat - 1000) / 10 * limit.toNat < 25600

/-- The deflection pulses whose position fits eight bits, as does its rescale to the limit. -/
structure DeflectionWindow (limit : Int8) (pulse : UInt32) : Prop where
  lower : 856 ≤ pulse.toNat
  upper : pulse.toNat ≤ 2139
  rescale_lower : -12900 < ((pulse.toNat : ℤ) - 1500).tdiv 5 * limit.toInt
  rescale_upper : ((pulse.toNat : ℤ) - 1500).tdiv 5 * limit.toInt < 12800

theorem motorStick_of_window {limit : UInt8} {pulse : UInt32} (h : MotorWindow limit pulse) :
    (motorStick pulse).toNat = (pulse.toNat - 1000) / 10 := by
  have hs := motorStick_toNat pulse
  have hl := h.lower
  have hu := h.upper
  rcases le_or_gt 1000 pulse.toNat with hp | hp
  · rw [tdiv_of_nonneg (by omega)] at hs
    omega
  · -- less than one position below the lower end: truncated to it
    rw [tdiv_of_nonpos (by omega)] at hs
    omega

theorem motorSpeed_of_window {u : AutopilotUtility} {pulse : UInt32}
    (h : MotorWindow u.maxThrottle pulse) :
    (u.bindRcThrottle (motorStick pulse)).toNat =
      (pulse.toNat - 1000) / 10 * u.maxThrottle.toNat / 100 := by
  have hr := h.rescale
  rw [bindRcThrottle_toNat, motorStick_of_window h]
  omega

/-- On the throttle window the motor speed is monotone. -/
theorem motorSpeed_mono {u : AutopilotUtility} {p q : UInt32} (hp : MotorWindow u.maxThrottle p)
    (hq : MotorWindow u.maxThrottle q) (h : p ≤ q) :
    u.bindRcThrottle (motorStick p) ≤ u.bindRcThrottle (motorStick q) := by
  rw [UInt8.le_iff_toNat_le, motorSpeed_of_window hp, motorSpeed_of_window hq]
  have hpq : p.toNat ≤ q.toNat := UInt32.le_iff_toNat_le.mp h
  gcongr

theorem deflectionStick_of_window {limit : Int8} {pulse : UInt32}
    (h : DeflectionWindow limit pulse) :
    (deflectionStick pulse).toInt = ((pulse.toNat : ℤ) - 1500).tdiv 5 := by
  have hl := h.lower
  have hu := h.upper
  rw [deflectionStick_eq]
  rcases le_or_gt 1500 pulse.toNat with hp | hp
  · rw [tdiv_of_nonneg (by omega), int8_ofInt_of_mem (by omega) (by omega)]
  · rw [tdiv_of_nonpos (by omega), int8_ofInt_of_mem (by omega) (by omega)]

theorem deflection_of_window {limit : Int8} (hlimit : 0 ≤ limit.toInt) {pulse : UInt32}
    (h : DeflectionWindow limit pulse) :
    (bindRcDeflection limit (deflectionStick pulse)).toInt =
      ((((pulse.toNat : ℤ) - 1500).tdiv 5 + 100) * limit.toInt).tdiv 100 - limit.toInt := by
  have hl := h.rescale_lower
  have hu := h.rescale_upper
  have hb := int8_toInt_bounds limit
  rw [bindRcDeflection_of_nonneg hlimit, deflectionStick_of_window h, add_mul]
  generalize ((pulse.toNat : ℤ) - 1500).tdiv 5 * limit.toInt = n at hl hu ⊢
  rcases le_or_gt 0 (n + 100 * limit.toInt) with hn | hn
  · rw [tdiv_of_nonneg hn, int8_ofInt_of_mem (by omega) (by omega)]
  · rw [tdiv_of_nonpos hn.le, int8_ofInt_of_mem (by omega) (by omega)]

/-- On the deflection window a deflection is monotone. -/
theorem deflection_mono {limit : Int8} (hlimit : 0 ≤ limit.toInt) {p q : UInt32}
    (hp : DeflectionWindow limit p) (hq : DeflectionWindow limit q) (h : p ≤ q) :
    bindRcDeflection limit (deflectionStick p) ≤ bindRcDeflection limit (deflectionStick q) := by
  have hpq : (p.toNat : ℤ) - 1500 ≤ q.toNat - 1500 := by
    have := UInt32.le_iff_toNat_le.mp h
    omega
  have hstick := Int.tdiv_le_tdiv (c := 5) (by norm_num) hpq
  rw [Int8.le_iff_toInt_le, deflection_of_window hlimit hp, deflection_of_window hlimit hq]
  apply sub_le_sub_right
  apply Int.tdiv_le_tdiv (by norm_num)
  gcongr

/-- On every channel, of two pulses within the channel's window the longer gives no smaller
output. -/
structure MonotoneWithinWindows (u : AutopilotUtility) : Prop where
  motor : ∀ i j : LoopInput, MotorWindow u.maxThrottle i.motor →
    MotorWindow u.maxThrottle j.motor → i.motor ≤ j.motor →
      (stickPath u i).motorSpeed ≤ (stickPath u j).motorSpeed
  aileron : ∀ i j : LoopInput, DeflectionWindow u.maxAileronDeflection i.aileron →
    DeflectionWindow u.maxAileronDeflection j.aileron → i.aileron ≤ j.aileron →
      (stickPath u i).aileronDeflection ≤ (stickPath u j).aileronDeflection
  elevator : ∀ i j : LoopInput, DeflectionWindow u.maxElevatorDeflection i.elevator →
    DeflectionWindow u.maxElevatorDeflection j.elevator → i.elevator ≤ j.elevator →
      (stickPath u i).elevatorDeflection ≤ (stickPath u j).elevatorDeflection
  rudder : ∀ i j : LoopInput, DeflectionWindow u.maxRudderDeflection i.rudder →
    DeflectionWindow u.maxRudderDeflection j.rudder → i.rudder ≤ j.rudder →
      (stickPath u i).rudderDeflection ≤ (stickPath u j).rudderDeflection

/-! ## Outside the windows -/

/-- The byte that a missing throttle pulse puts into the packet. -/
theorem motorStick_zero : (motorStick 0).toNat = 156 := by
  have h := motorStick_toNat 0
  have h₁ : ((0 : UInt32).toNat : ℤ) = 0 := rfl
  rw [h₁, tdiv_of_nonpos (by norm_num)] at h
  omega

/-- A missing throttle pulse stops the motor only if the limit does. -/
theorem failSafePath_iff (u : AutopilotUtility) : FailSafePath u ↔ u.maxThrottle = 0 := by
  have hl := uint8_toNat_le u.maxThrottle
  have hs := bindRcThrottle_toNat u (motorStick 0)
  rw [motorStick_zero] at hs
  constructor
  · intro h
    have hm : u.bindRcThrottle (motorStick 0) = 0 := h ⟨0, 0, 0, 0, 0, 0, {}⟩ rfl
    apply UInt8.toNat_inj.mp
    rw [hm] at hs
    change 0 = _ at hs
    show u.maxThrottle.toNat = 0
    -- the rescale of 156 is below 512, and it is never 256
    have hq : 156 * u.maxThrottle.toNat / 100 = 0 ∨ 156 * u.maxThrottle.toNat / 100 = 256 := by
      omega
    rcases hq with hq | hq
    · omega
    · omega
  · rintro h ⟨motor, -, -, -, -, -, -⟩ rfl
    apply UInt8.toNat_inj.mp
    show (u.bindRcThrottle (motorStick 0)).toNat = 0
    rw [hs, h]
    rfl

/-- The wrapped pulses 0 and 2140 break the order of every deflection whose limit is not zero. -/
theorem deflection_monotone_iff {limit : Int8} (hlimit : 0 ≤ limit.toInt) :
    (∀ p q : UInt32, p ≤ q →
      bindRcDeflection limit (deflectionStick p) ≤ bindRcDeflection limit (deflectionStick q)) ↔
      limit = 0 := by
  have hb := int8_toInt_bounds limit
  have h₀ : (deflectionStick 0).toInt = -44 := by rw [deflectionStick_eq]; decide
  have h₁ : (deflectionStick 1000).toInt = -100 := by rw [deflectionStick_eq]; decide
  have h₂ : (deflectionStick 2139).toInt = 127 := by rw [deflectionStick_eq]; decide
  have h₃ : (deflectionStick 2140).toInt = -128 := by rw [deflectionStick_eq]; decide
  constructor
  · intro h
    have hlow := Int8.le_iff_toInt_le.mp (h 0 1000 (by decide))
    have hhigh := Int8.le_iff_toInt_le.mp (h 2139 2140 (by decide))
    rw [bindRcDeflection_of_nonneg hlimit, bindRcDeflection_of_nonneg hlimit, h₀, h₁,
      tdiv_of_nonneg (by omega), tdiv_of_nonneg (by omega),
      int8_ofInt_of_mem (by omega) (by omega), int8_ofInt_of_mem (by omega) (by omega)] at hlow
    -- no pulse leaves the limits 0 and 1, and the upper wrap excludes 1
    have hone : limit.toInt ≤ 1 := by omega
    rw [bindRcDeflection_of_nonneg hlimit, bindRcDeflection_of_nonneg hlimit, h₂, h₃,
      tdiv_of_nonneg (by omega), tdiv_of_nonpos (by omega),
      int8_ofInt_of_mem (by omega) (by omega), int8_ofInt_of_mem (by omega) (by omega)] at hhigh
    apply Int8.toInt_inj.mp
    show limit.toInt = 0
    omega
  · rintro rfl p q -
    have hz : ∀ stick, bindRcDeflection 0 stick = 0 := by
      intro stick
      rw [bindRcDeflection_of_nonneg hlimit]
      simp
    rw [hz, hz]
    exact Int8.le_refl 0

/-! ## The whole path -/

theorem monotonePath_iff {u : AutopilotUtility} (h : u.NonNeg) (hmotor : u.maxThrottle = 0) :
    MonotonePath u ↔
      u.maxAileronDeflection = 0 ∧ u.maxElevatorDeflection = 0 ∧ u.maxRudderDeflection = 0 := by
  rw [← deflection_monotone_iff h.aileron, ← deflection_monotone_iff h.elevator,
    ← deflection_monotone_iff h.rudder]
  constructor
  · intro hm
    exact ⟨fun p q => hm.aileron ⟨0, p, 0, 0, 0, 0, {}⟩ ⟨0, q, 0, 0, 0, 0, {}⟩,
      fun p q => hm.elevator ⟨0, 0, p, 0, 0, 0, {}⟩ ⟨0, 0, q, 0, 0, 0, {}⟩,
      fun p q => hm.rudder ⟨0, 0, 0, p, 0, 0, {}⟩ ⟨0, 0, 0, q, 0, 0, {}⟩⟩
  · rintro ⟨ha, he, hr⟩
    refine ⟨fun i j _ => ?_, fun i j => ha _ _, fun i j => he _ _, fun i j => hr _ _⟩
    have hz : ∀ stick, (u.bindRcThrottle stick).toNat = 0 := by
      intro stick
      rw [bindRcThrottle_toNat, hmotor]
      simp
    rw [UInt8.le_iff_toNat_le]
    show (u.bindRcThrottle _).toNat ≤ (u.bindRcThrottle _).toNat
    rw [hz, hz]

/-- **The path of a stick.** Over all pulses the path is monotone and fail-safe only when every
limit is zero; over the pulses within the windows it is monotone for any limits. -/
theorem monotonePath_and_failSafePath_iff (u : AutopilotUtility) (h : u.NonNeg) :
    (MonotonePath u ∧ FailSafePath u ↔
      u.maxThrottle = 0 ∧ u.maxAileronDeflection = 0 ∧ u.maxElevatorDeflection = 0 ∧
        u.maxRudderDeflection = 0) ∧
      MonotoneWithinWindows u := by
  constructor
  · rw [failSafePath_iff]
    constructor
    · rintro ⟨hm, hmotor⟩
      exact ⟨hmotor, (monotonePath_iff h hmotor).mp hm⟩
    · rintro ⟨hmotor, hrest⟩
      exact ⟨(monotonePath_iff h hmotor).mpr hrest, hmotor⟩
  · exact ⟨fun _ _ => motorSpeed_mono, fun _ _ => deflection_mono h.aileron,
      fun _ _ => deflection_mono h.elevator, fun _ _ => deflection_mono h.rudder⟩

/-- The shipped limits: the nominal pulses of every channel are within the windows. -/
theorem monotonePath_shipped :
    (stickPath AutopilotConfig.shipped.utility
        ⟨1000, 1200, 1000, 1000, 0, 0, {}⟩).aileronDeflection ≤
      (stickPath AutopilotConfig.shipped.utility
        ⟨2000, 1800, 2000, 2000, 0, 0, {}⟩).aileronDeflection :=
  (monotonePath_and_failSafePath_iff AutopilotConfig.shipped.utility (by decide)).2.aileron
    ⟨1000, 1200, 1000, 1000, 0, 0, {}⟩ ⟨2000, 1800, 2000, 2000, 0, 0, {}⟩
    ⟨by decide, by decide, by decide, by decide⟩ ⟨by decide, by decide, by decide, by decide⟩
    (by decide)

/-- With the shipped limits a missing throttle pulse gives a motor speed of 397 less 256, and the
pulse of the lower end gives 0. -/
theorem stickPath_shipped_no_pulse :
    (stickPath AutopilotConfig.shipped.utility ⟨0, 1500, 1500, 1500, 0, 0, {}⟩).motorSpeed = 141 ∧
      (stickPath AutopilotConfig.shipped.utility
        ⟨1000, 1500, 1500, 1500, 0, 0, {}⟩).motorSpeed = 0 ∧
      ¬ (MonotonePath AutopilotConfig.shipped.utility ∧
        FailSafePath AutopilotConfig.shipped.utility) := by
  have h₀ := bindRcThrottle_toNat AutopilotConfig.shipped.utility (motorStick 0)
  rw [motorStick_zero] at h₀
  have h₁ : (stickPath AutopilotConfig.shipped.utility
      ⟨0, 1500, 1500, 1500, 0, 0, {}⟩).motorSpeed = 141 := UInt8.toNat_inj.mp h₀
  refine ⟨h₁, ?_, ?_⟩
  · apply UInt8.toNat_inj.mp
    have hw : MotorWindow AutopilotConfig.shipped.utility.maxThrottle 1000 :=
      ⟨by decide, by decide, by decide⟩
    exact motorSpeed_of_window hw
  · rintro ⟨-, hsafe⟩
    rw [hsafe _ rfl] at h₁
    exact absurd h₁ (by decide)

end RcPlane
