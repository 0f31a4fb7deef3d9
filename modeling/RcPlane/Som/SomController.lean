import RcPlane.Autopilot.AutopilotManager
import RcPlane.Serial.SerialController

/-!
# The SoM controller

What `handshakeMCU` and `runMainLoop` do between two serial operations: they count the outcomes,
trigger the autopilot on whatever the two reads of an iteration returned, and publish the three
telemetry messages. A read that timed out returns a default packet, and is acted upon like any
other.

## Main definitions

* `DebugMessage`, `AttitudeMessage`, `OnboardStateMessage`: the telemetry messages
* `SomConfig`: what the configuration fixes
* `SomController`: the controller's memory
* `SomController.countRead`, `SomController.trigger`, `SomController.finishIteration`,
  `SomController.sendTelemetry`: the pieces of the loops
-/

namespace RcPlane

/-! ## Telemetry messages -/

/-- The counters of the serial operations. -/
structure DebugMessage where
  serialReads : UInt32 := 0
  serialReadTimeouts : UInt32 := 0
  serialWrites : UInt32 := 0
  serialWriteTimeouts : UInt32 := 0
  mainLoopCounter : UInt32 := 0
deriving DecidableEq, Repr

/-- Attitude data. -/
structure AttitudeMessage (D : Type) where
  courseHeading : D
  rollAngle : D
  pitchAngle : D
  yawAngle : D

/-- The autopilot that the onboard message reports. -/
inductive AutopilotType
  | ERROR
  | MANUAL_AUTOPILOT
  | STABILIZE_AUTOPILOT
deriving DecidableEq, Repr

/-- The state of the SoM and the MCU. -/
structure OnboardStateMessage where
  mcuTimestamp : UInt32 := 0
  throttle : UInt8 := 0
  aileronDeflection : Int8 := 0
  elevatorDeflection : Int8 := 0
  rudderDeflection : Int8 := 0
  autopilotType : AutopilotType := .ERROR
  imuTemperature : UInt8 := 0
deriving DecidableEq, Repr

/-! ## The controller -/

/-- What the configuration fixes for the SoM, with the two conversions of a `float`. -/
structure SomConfig (D : Type) where
  autopilot : AutopilotConfig D
  handshakeAttempts : ℕ
  handshakeTerminationStr : List UInt8
  /-- A `float` as a `double`. -/
  promote : FloatPattern → D
  /-- A `float` converted to `uint8_t`. -/
  temperature : FloatPattern → UInt8
  /-- What the out-of-range conversions of the `n`-th call of the autopilot yield. -/
  outOfRange : ℕ → Conversion → D → Int8

/-- The values of `configs/config.json`, with given conversions. -/
def SomConfig.shipped (promote : FloatPattern → ℚ) (temperature : FloatPattern → UInt8)
    (outOfRange : ℕ → Conversion → ℚ → Int8) : SomConfig ℚ where
  autopilot := AutopilotConfig.shipped
  handshakeAttempts := 20
  handshakeTerminationStr := [102, 108, 117, 115, 104, 13, 10]
  promote := promote
  temperature := temperature
  outOfRange := outOfRange

/-- The shipped configuration in level flight: every `float` reads as zero. -/
def SomConfig.level : SomConfig ℚ := SomConfig.shipped (fun _ => 0) (fun _ => 0) fun _ _ _ => 0

/-- The controller's memory, and what it has published. -/
structure SomController (D : Type) where
  autopilotManager : AutopilotManager D
  debugMessage : DebugMessage
  attitudeMessage : AttitudeMessage D
  onboardMessage : OnboardStateMessage
  /-- The messages of every call of `sendTelemetry`, oldest first. -/
  telemetry : List (DebugMessage × AttitudeMessage D × OnboardStateMessage)

namespace SomController

variable {D : Type}

/-- The controller after construction. -/
def initial [Double D] : SomController D :=
  ⟨AutopilotManager.initial, {}, ⟨0, 0, 0, 0⟩, {}, []⟩

/-- Publish the three messages as they are. -/
def sendTelemetry (s : SomController D) : SomController D :=
  { s with
    telemetry := s.telemetry ++ [(s.debugMessage, s.attitudeMessage, s.onboardMessage)] }

/-- Count a read that is over. -/
def countRead (s : SomController D) (didTimeout : Bool) : SomController D :=
  { s with
    debugMessage :=
      if didTimeout then
        { s.debugMessage with serialReadTimeouts := s.debugMessage.serialReadTimeouts + 1 }
      else { s.debugMessage with serialReads := s.debugMessage.serialReads + 1 } }

/-- Count a write that is over. -/
def countWrite (s : SomController D) (written : Bool) : SomController D :=
  { s with
    debugMessage :=
      if written then { s.debugMessage with serialWrites := s.debugMessage.serialWrites + 1 }
      else
        { s.debugMessage with serialWriteTimeouts := s.debugMessage.serialWriteTimeouts + 1 } }

/-- Trigger the autopilot on the packets of the two reads, and note the answer for the onboard
message. -/
def trigger [Double D] (c : SomConfig D) (s : SomController D) (call : TriggerCall D) :
    SomController D × ControlSurfacePacket :=
  let r := AutopilotManager.trigger c.promote c.autopilot s.autopilotManager call
  ({ s with
      autopilotManager := r.1
      onboardMessage :=
        { mcuTimestamp := call.rcRxPacket.timestamp
          throttle := r.2.motorSpeed
          aileronDeflection := r.2.aileronDeflection
          elevatorDeflection := r.2.elevatorDeflection
          rudderDeflection := r.2.rudderDeflection
          autopilotType :=
            if r.1.isInManualMode then .MANUAL_AUTOPILOT else .STABILIZE_AUTOPILOT
          imuTemperature := c.temperature call.imuPacket.temperature } },
    r.2)

/-- The end of an iteration, after its write: the counters, the attitude message, and the
telemetry. -/
def finishIteration (c : SomConfig D) (s : SomController D) (imuPacket : ImuPacket)
    (written : Bool) : SomController D :=
  let s := s.countWrite written
  sendTelemetry
    { s with
      debugMessage :=
        { s.debugMessage with mainLoopCounter := s.debugMessage.mainLoopCounter + 1 }
      attitudeMessage :=
        { s.attitudeMessage with
          rollAngle := c.promote imuPacket.gyroX
          pitchAngle := c.promote imuPacket.gyroY
          yawAngle := c.promote imuPacket.gyroZ } }

@[simp] theorem autopilotManager_countRead (s : SomController D) (didTimeout : Bool) :
    (s.countRead didTimeout).autopilotManager = s.autopilotManager := rfl

@[simp] theorem autopilotManager_trigger [Double D] (c : SomConfig D) (s : SomController D)
    (call : TriggerCall D) :
    (trigger c s call).1.autopilotManager =
      (AutopilotManager.trigger c.promote c.autopilot s.autopilotManager call).1 := rfl

end SomController

end RcPlane
