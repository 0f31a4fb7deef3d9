import RcPlane.Autopilot.StabilizeAutopilot

/-!
# The autopilot manager

The manager holds both autopilots and the one in use, and changes it when the masked state of
the received packet differs from the one before.

## Main definitions

* `ManualAutopilot.trigger`: the sticks, bound
* `AutopilotManager.handleState`, `AutopilotManager.trigger`: one call
* `AutopilotManager.automaton`: the runs of `trigger` from construction
-/

namespace RcPlane

open Foundation

/-- One call of the manual autopilot: every channel is the bound stick. -/
def ManualAutopilot.trigger (u : AutopilotUtility) (rcRxPacket : RcRxPacket) :
    ControlSurfacePacket where
  motorSpeed := u.bindRcThrottle rcRxPacket.motorStickPosition
  aileronDeflection := u.bindRcAileronDeflection rcRxPacket.aileronStickPosition
  elevatorDeflection := u.bindRcElevatorDeflection rcRxPacket.elevatorStickPosition
  rudderDeflection := u.bindRcRudderDeflection rcRxPacket.rudderStickPosition

/-- The autopilot that `m_autopilot` points to. -/
inductive Autopilot
  | manual
  | stabilize
deriving DecidableEq, Repr

/-- The manager's memory. -/
structure AutopilotManager (D : Type) where
  stabilizeAutopilot : StabilizeMemory D
  autopilot : Autopilot
  prevState : UInt8

/-- What the configuration fixes for the autopilots. -/
structure AutopilotConfig (D : Type) where
  utility : AutopilotUtility
  stabilize : StabilizeConfig D

/-- The values of `configs/config.json`. -/
def AutopilotConfig.shipped : AutopilotConfig ℚ where
  utility := ⟨255, 35, 40, 20⟩
  stabilize := ⟨35, 0.5, 0.05, 0.08, 0.05, 4⟩

namespace AutopilotManager

variable {D : Type}

/-- The manual autopilot is in use. -/
def isInManualMode (s : AutopilotManager D) : Bool := s.autopilot = .manual

/-- The stabilize autopilot is in use. -/
def isInStabilizeMode (s : AutopilotManager D) : Bool := s.autopilot = .stabilize

/-- Change the autopilot, if the state changed. -/
def handleState (s : AutopilotManager D) (state : UInt8) : AutopilotManager D :=
  if state = s.prevState then s
  else
    { s with
      autopilot := if state &&& kASSISTANCE_FLAG ≠ 0 then .stabilize else .manual
      prevState := state }

variable [Double D]

/-- The manager at construction. -/
def initial : AutopilotManager D := ⟨StabilizeMemory.initial, .manual, 0⟩

variable (promote : FloatPattern → D) (c : AutopilotConfig D)

/-- One call: select the autopilot, then trigger it. -/
def trigger (s : AutopilotManager D) (call : TriggerCall D) :
    AutopilotManager D × ControlSurfacePacket :=
  let s := s.handleState (call.rcRxPacket.state &&& kAUTOPILOT_MASK)
  match s.autopilot with
  | .manual => (s, ManualAutopilot.trigger c.utility call.rcRxPacket)
  | .stabilize =>
    let (m, packet) :=
      StabilizeAutopilot.trigger promote c.utility c.stabilize s.stabilizeAutopilot call
    ({ s with stabilizeAutopilot := m }, packet)

/-- The runs of `trigger` from construction. -/
def automaton : Automaton (AutopilotManager D) (TriggerCall D) ControlSurfacePacket where
  start := initial
  step := trigger promote c

end AutopilotManager

end RcPlane
