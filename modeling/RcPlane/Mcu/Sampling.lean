import RcPlane.Foundation.Narrowing
import RcPlane.Common.Packet

/-!
# The microcontroller's samples

The packets that `loop` builds from the receiver's pulse widths and the IMU readings. A pulse
width is scaled to a stick position in `double`, and the scaled value is converted to `uint8_t`
and stored in the packet field, which for the deflection sticks is signed. `pulseIn` returns 0
when no pulse arrives.

## Main definitions

* `toRange`: the scaling, in exact rationals
* `motorStick`, `deflectionStick`: the packet fields of a pulse width
* `LoopInput`, `LoopInput.rcRxPacket`: what one iteration reads, and the packet it writes

## Main results

* `motorStick_toNat`, `deflectionStick_eq`: the fields in integer arithmetic
-/

namespace RcPlane

open Foundation

/-- The pulse width of the lower end of a stick, in microseconds. -/
def PVM_MIN : ℚ := 1000

/-- The pulse width of the upper end of a stick. -/
def PVM_MAX : ℚ := 2000

/-- The linear scaling of a pulse width to an output range. -/
def toRange (value minOffset maxOffset : ℚ) : ℚ :=
  ((value - PVM_MIN) / (PVM_MAX - PVM_MIN)) * (maxOffset - minOffset) + minOffset

/-- The conversion of a `double` to `uint8_t`: truncated, and reduced modulo `2^8`. -/
def toUInt8 (x : ℚ) : UInt8 := UInt8.ofInt (truncate x)

/-- The throttle field of a pulse width. -/
def motorStick (pulse : UInt32) : UInt8 := toUInt8 (toRange pulse.toNat 0 100)

/-- The deflection field of a pulse width: converted to `uint8_t`, stored as `int8_t`. -/
def deflectionStick (pulse : UInt32) : Int8 := (toUInt8 (toRange pulse.toNat (-100) 100)).toInt8

/-- A stick is away from neutral. -/
def has_user_input (value : Int8) : Bool := 3 ≤ value.toInt || value.toInt ≤ -3

/-- What one iteration of `loop` reads from its pins, its clock and the IMU. -/
structure LoopInput where
  motor : UInt32
  aileron : UInt32
  elevator : UInt32
  rudder : UInt32
  assistance : UInt32
  millis : UInt32
  imuPacket : ImuPacket
deriving DecidableEq, Repr

/-- The packet that one iteration writes. -/
def LoopInput.rcRxPacket (i : LoopInput) : RcRxPacket where
  timestamp := i.millis
  state :=
    (if 1600 < i.assistance then kASSISTANCE_FLAG else 0x0) |||
      (if has_user_input (deflectionStick i.aileron) then kUSER_ROLL else 0x0) |||
      (if has_user_input (deflectionStick i.elevator) then kUSER_PITCH else 0x0)
  motorStickPosition := motorStick i.motor
  aileronStickPosition := deflectionStick i.aileron
  elevatorStickPosition := deflectionStick i.elevator
  rudderStickPosition := deflectionStick i.rudder

/-- The scaled throttle pulse is a tenth of its distance from the lower end. -/
theorem truncate_toRange_motor (pulse : UInt32) :
    truncate (toRange pulse.toNat 0 100) = ((pulse.toNat : ℤ) - 1000).tdiv 10 := by
  have h : toRange pulse.toNat 0 100 = (((pulse.toNat : ℤ) - 1000 : ℤ) : ℚ) / (10 : ℕ) := by
    unfold toRange PVM_MIN PVM_MAX
    push_cast
    ring
  rw [h, truncate_div _ (by norm_num)]
  rfl

/-- The scaled deflection pulse is a fifth of its distance from the middle. -/
theorem truncate_toRange_deflection (pulse : UInt32) :
    truncate (toRange pulse.toNat (-100) 100) = ((pulse.toNat : ℤ) - 1500).tdiv 5 := by
  have h : toRange pulse.toNat (-100) 100 = (((pulse.toNat : ℤ) - 1500 : ℤ) : ℚ) / (5 : ℕ) := by
    unfold toRange PVM_MIN PVM_MAX
    push_cast
    ring
  rw [h, truncate_div _ (by norm_num)]
  rfl

theorem motorStick_toNat (pulse : UInt32) :
    ((motorStick pulse).toNat : ℤ) = ((pulse.toNat : ℤ) - 1000).tdiv 10 % 256 := by
  rw [motorStick, toUInt8, uint8_ofInt_toNat, truncate_toRange_motor]

theorem deflectionStick_eq (pulse : UInt32) :
    deflectionStick pulse = Int8.ofInt (((pulse.toNat : ℤ) - 1500).tdiv 5) := by
  rw [deflectionStick, toUInt8, truncate_toRange_deflection, toInt8_ofInt]

end RcPlane
