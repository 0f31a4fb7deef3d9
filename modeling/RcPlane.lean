import RcPlane.Foundation.Codec
import RcPlane.Foundation.Automaton
import RcPlane.Foundation.Network
import RcPlane.Foundation.Narrowing
import RcPlane.Common.Packet
import RcPlane.Autopilot.AutopilotUtility
import RcPlane.Autopilot.StabilizeAutopilot
import RcPlane.Autopilot.AutopilotManager
import RcPlane.Autopilot.ModeSelection
import RcPlane.Autopilot.Envelope
import RcPlane.Serial.SerialController
import RcPlane.Som.SomController
import RcPlane.Mcu.Sampling
import RcPlane.Mcu.StickPath
import RcPlane.Mcu.Firmware
import RcPlane.Som.MainLoop
import RcPlane.Link.Link
import RcPlane.Link.ReadIntegrity
import RcPlane.Link.Lockstep
import RcPlane.Link.Commands
import RcPlane.Link.Handshake
import RcPlane.Autopilot.RollController
import RcPlane.Autopilot.PitchController
import RcPlane.Autopilot.ExtendedRoll
import RcPlane.Autopilot.Reengagement
import RcPlane.Foundation.Queue
import RcPlane.Telemetry.MessageQueues
import RcPlane.Som.Accounting
import RcPlane.Som.Timeouts
import RcPlane.Autopilot.Rescale
import RcPlane.Autopilot.RollMirror
import RcPlane.Serial.Availability
import RcPlane.Serial.Flush
import RcPlane.Config.Json
import RcPlane.Som.Scan
import RcPlane.Config.ConfigManager
import RcPlane.Config.Limits
import RcPlane.Serial.Threads
import RcPlane.Serial.Truthfulness
import RcPlane.Link.PowerOn
import RcPlane.Link.Startup
import RcPlane.Link.Servo
import RcPlane.Serial.Linearizability
import RcPlane.Som.Reports
import RcPlane.Telemetry.Display
import RcPlane.Link.Reports
import RcPlane.Autopilot.NonFinite
import RcPlane.Som.NonFinite
import RcPlane.Som.Lifecycle
import RcPlane.Som.Shutdown
import RcPlane.Foundation.NamedObjects
import RcPlane.Telemetry.Registry
import RcPlane.Telemetry.Restarts
import RcPlane.Link.Silence
import RcPlane.Link.Agreement
import RcPlane.Foundation.Binary64
import RcPlane.Foundation.RoundingError
import RcPlane.Foundation.DoubleArithmetic
import RcPlane.Foundation.DoubleBounds
import RcPlane.Autopilot.RollOverflow
import RcPlane.Autopilot.RollFinite
import RcPlane.Som.Program
