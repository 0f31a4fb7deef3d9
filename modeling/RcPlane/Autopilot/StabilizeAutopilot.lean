import RcPlane.Foundation.Automaton
import RcPlane.Autopilot.AutopilotUtility

/-!
# The stabilize autopilot

The two PID controllers. Roll clamps its `double` output, feeds the clamping error back into its
integral, and narrows last; pitch narrows its integral and its output to `int8_t` first and
clamps the narrowed values.

## Main definitions

* `StabilizeConfig D`, `StabilizeMemory D`: the constants and the memory of the controllers
* `computeRollToAileronDeflection`, `computePitchToElevatorDeflection`: one control step
* `StabilizeAutopilot.trigger`: one call, and `StabilizeAutopilot.automaton`: its runs
* `TriggerCall D`: what a call is given
-/

namespace RcPlane

open Foundation

/-- The conversions from `double` to `int8_t` of one call, by the place they stand at. -/
inductive Conversion
  /-- The roll output. -/
  | roll
  /-- The pitch integral, as the argument of `bindIntegralError`. -/
  | integralArgument
  /-- The bound returned by `bindIntegralError`. -/
  | integralResult
  /-- The pitch output. -/
  | pitch
deriving DecidableEq, Repr

/-- What a call of `trigger` is given: the packets, and the values that the platform's
out-of-range conversions yield during the call. -/
structure TriggerCall (D : Type) where
  outOfRange : Conversion → D → Int8
  rcRxPacket : RcRxPacket
  imuPacket : ImuPacket

/-- The constants of the controllers, read from the configuration. -/
structure StabilizeConfig (D : Type) where
  maxAileronDeflection : D
  kp : D
  ki : D
  kd : D
  tau : D
  maxIntegralError : D

/-- The memory of the controllers. -/
structure StabilizeMemory (D : Type) where
  prevRollError : D
  prevPitchError : D
  rollDerivativeError : D
  rollIntegralError : D
  pitchIntegralError : D

variable {D : Type} [Double D]

/-- The memory at construction. -/
def StabilizeMemory.initial : StabilizeMemory D := ⟨0, 0, 0, 0, 0⟩

/-! ## Roll -/

section Roll

variable (u : AutopilotUtility) (c : StabilizeConfig D) (m : StabilizeMemory D) (rollAngle : D)

/-- The period of the control loop. -/
def timestamp : D := 0.04

/-- The roll error: the desired angle is zero. -/
def rollError : D := 0 - rollAngle

/-- The integral after the trapezoidal update. -/
def rollIntegral : D :=
  m.rollIntegralError +
    timestamp / ((2 : ℤ) : D) * (rollError rollAngle + m.prevRollError)

/-- The filtered derivative. -/
def rollDerivative : D :=
  (((2 : ℤ) : D) * c.tau - timestamp) / (((2 : ℤ) : D) * c.tau + timestamp)
      * m.rollDerivativeError
    + ((2 : ℤ) : D) / (((2 : ℤ) : D) * c.tau + timestamp)
      * (rollError rollAngle - m.prevRollError)

/-- The output before the clamp. -/
def rollUnsaturatedOutput : D :=
  c.kp * rollError rollAngle + c.ki * rollIntegral m rollAngle + c.kd * rollDerivative c m rollAngle

/-- The output after the clamp: the value that is cast to `int8_t`. -/
def rollOutput : D := u.bindPidAileronDeflection (rollUnsaturatedOutput c m rollAngle)

/-- One step of the roll controller. -/
def computeRollToAileronDeflection (outOfRange : Conversion → D → Int8) :
    StabilizeMemory D × Int8 :=
  ({ m with
      rollDerivativeError := rollDerivative c m rollAngle
      prevRollError := rollError rollAngle
      rollIntegralError := rollIntegral m rollAngle +
        timestamp / c.ki * (rollOutput u c m rollAngle - rollUnsaturatedOutput c m rollAngle) },
    narrow (outOfRange .roll) (rollOutput u c m rollAngle))

end Roll

/-! ## Pitch -/

section Pitch

variable (c : StabilizeConfig D) (m : StabilizeMemory D) (pitchAngle : D)
  (outOfRange : Conversion → D → Int8)

/-- Bind the integral error, which arrives narrowed to `int8_t`. -/
def bindIntegralError (integralError : Int8) : Int8 :=
  if c.maxIntegralError < (integralError.toInt : D) then
    narrow (outOfRange .integralResult) c.maxIntegralError
  else if (integralError.toInt : D) < -c.maxIntegralError then
    narrow (outOfRange .integralResult) (-c.maxIntegralError)
  else integralError

/-- The pitch error: the desired angle is zero. -/
def pitchError : D := 0 - pitchAngle

/-- The integral after the sum and the bind. -/
def pitchIntegral : D :=
  ((bindIntegralError c outOfRange
    (narrow (outOfRange .integralArgument)
      (m.pitchIntegralError + pitchError pitchAngle))).toInt : D)

/-- The output before it is narrowed. -/
def pitchOutput : D :=
  c.kp * pitchError pitchAngle + c.ki * pitchIntegral c m pitchAngle outOfRange
    + c.kd * (pitchError pitchAngle - m.prevPitchError)

/-- One step of the pitch controller. -/
def computePitchToElevatorDeflection : StabilizeMemory D × Int8 :=
  ({ m with
      pitchIntegralError := pitchIntegral c m pitchAngle outOfRange
      prevPitchError := pitchError pitchAngle },
    narrow (outOfRange .pitch) (pitchOutput c m pitchAngle outOfRange))

end Pitch

/-! ## One call -/

namespace StabilizeAutopilot

variable (promote : FloatPattern → D) (u : AutopilotUtility) (c : StabilizeConfig D)

/-- One call: throttle and rudder are bound from the sticks, aileron and elevator come from the
controllers. `promote` is the conversion of a `float` to `double`. -/
def trigger (m : StabilizeMemory D) (call : TriggerCall D) :
    StabilizeMemory D × ControlSurfacePacket :=
  let motorSpeed := u.bindRcThrottle call.rcRxPacket.motorStickPosition
  let (m₁, aileronDeflection) :=
    computeRollToAileronDeflection u c m (promote call.imuPacket.gyroX) call.outOfRange
  let (m₂, elevator) :=
    computePitchToElevatorDeflection c m₁ (promote call.imuPacket.gyroY) call.outOfRange
  let elevatorDeflection := u.bindPidElevatorDeflection elevator
  let rudderDeflection := u.bindRcRudderDeflection call.rcRxPacket.rudderStickPosition
  (m₂, ⟨motorSpeed, aileronDeflection, elevatorDeflection, rudderDeflection⟩)

/-- The runs of `trigger` from construction. -/
def automaton : Automaton (StabilizeMemory D) (TriggerCall D) ControlSurfacePacket where
  start := StabilizeMemory.initial
  step := trigger promote u c

@[simp] theorem trigger_motorSpeed (m : StabilizeMemory D) (call : TriggerCall D) :
    (trigger promote u c m call).2.motorSpeed =
      u.bindRcThrottle call.rcRxPacket.motorStickPosition := rfl

@[simp] theorem trigger_aileronDeflection (m : StabilizeMemory D) (call : TriggerCall D) :
    (trigger promote u c m call).2.aileronDeflection =
      (computeRollToAileronDeflection u c m (promote call.imuPacket.gyroX) call.outOfRange).2 :=
  rfl

/-- The pitch controller reads none of the roll controller's memory. -/
@[simp] theorem trigger_elevatorDeflection (m : StabilizeMemory D) (call : TriggerCall D) :
    (trigger promote u c m call).2.elevatorDeflection =
      u.bindPidElevatorDeflection
        (computePitchToElevatorDeflection c m (promote call.imuPacket.gyroY) call.outOfRange).2 :=
  rfl

@[simp] theorem trigger_rudderDeflection (m : StabilizeMemory D) (call : TriggerCall D) :
    (trigger promote u c m call).2.rudderDeflection =
      u.bindRcRudderDeflection call.rcRxPacket.rudderStickPosition := rfl

@[simp] theorem trigger_pitchIntegralError (m : StabilizeMemory D) (call : TriggerCall D) :
    (trigger promote u c m call).1.pitchIntegralError =
      pitchIntegral c m (promote call.imuPacket.gyroY) call.outOfRange := rfl

end StabilizeAutopilot

end RcPlane
