import RcPlane.Foundation.Codec

/-!
# Packets

The four packets exchanged between the microcontroller and the SoM, and the flags of
`RcRxPacket.state`. A packet on the wire is its packed record, byte for byte: no padding, no
frame, no length and no sequence number. A `float` field is carried as its 4-byte pattern.

## Main definitions

* `HandshakePacket`, `RcRxPacket`, `ControlSurfacePacket`, `ImuPacket`
* `HandshakePacket.codec` and its siblings: the packed layouts
* `PacketType`, `PacketType.codec`: the packets `SerialController` is instantiated at
* `kUSER_ROLL`, `kUSER_PITCH`, `kASSISTANCE_FLAG`, `kAUTOPILOT_MASK`
-/

namespace RcPlane

open Foundation

/-! ## State flags -/

/-- The user is manipulating the roll stick. -/
def kUSER_ROLL : UInt8 := 0x01

/-- The user is manipulating the pitch stick. -/
def kUSER_PITCH : UInt8 := 0x02

/-- Apply flight stabilization. -/
def kASSISTANCE_FLAG : UInt8 := 0x80

/-- The bits of the state that select the autopilot. -/
def kAUTOPILOT_MASK : UInt8 := kASSISTANCE_FLAG

/-! ## Packet records -/

/-- The 4-byte pattern of a `float`. -/
abbrev FloatPattern := UInt32

/-- The handshake value. -/
structure HandshakePacket where
  handshake : UInt8 := 0
deriving DecidableEq, Repr

/-- Time and state of the RX controller. -/
structure RcRxPacket where
  timestamp : UInt32 := 0
  state : UInt8 := 0
  motorStickPosition : UInt8 := 0
  aileronStickPosition : Int8 := 0
  elevatorStickPosition : Int8 := 0
  rudderStickPosition : Int8 := 0
deriving DecidableEq, Repr

/-- Control surface values. -/
structure ControlSurfacePacket where
  motorSpeed : UInt8 := 0
  aileronDeflection : Int8 := 0
  elevatorDeflection : Int8 := 0
  rudderDeflection : Int8 := 0
deriving DecidableEq, Repr

/-- Gyroscope and accelerometer readings. -/
structure ImuPacket where
  gyroX : FloatPattern := 0
  gyroY : FloatPattern := 0
  gyroZ : FloatPattern := 0
  accX : FloatPattern := 0
  accY : FloatPattern := 0
  accZ : FloatPattern := 0
  temperature : FloatPattern := 0
deriving DecidableEq, Repr

/-! ## Packed layouts -/

/-- The single byte of the handshake. -/
def HandshakePacket.codec : Codec HandshakePacket :=
  Codec.uint8.map
    ⟨fun b => ⟨b⟩, fun p => p.handshake, fun _ => rfl, fun _ => rfl⟩

/-- Nine bytes: the timestamp, the state and the four sticks. -/
def RcRxPacket.codec : Codec RcRxPacket :=
  (Codec.uint32.pair (Codec.uint8.pair (Codec.uint8.pair
    (Codec.int8.pair (Codec.int8.pair Codec.int8))))).map
    ⟨fun t => ⟨t.1, t.2.1, t.2.2.1, t.2.2.2.1, t.2.2.2.2.1, t.2.2.2.2.2⟩,
      fun p => (p.timestamp, p.state, p.motorStickPosition, p.aileronStickPosition,
        p.elevatorStickPosition, p.rudderStickPosition),
      fun _ => rfl, fun _ => rfl⟩

/-- Four bytes: the motor and the three surfaces. -/
def ControlSurfacePacket.codec : Codec ControlSurfacePacket :=
  (Codec.uint8.pair (Codec.int8.pair (Codec.int8.pair Codec.int8))).map
    ⟨fun t => ⟨t.1, t.2.1, t.2.2.1, t.2.2.2⟩,
      fun p => (p.motorSpeed, p.aileronDeflection, p.elevatorDeflection, p.rudderDeflection),
      fun _ => rfl, fun _ => rfl⟩

/-- Twenty-eight bytes: seven float patterns. -/
def ImuPacket.codec : Codec ImuPacket :=
  (Codec.uint32.pair (Codec.uint32.pair (Codec.uint32.pair (Codec.uint32.pair
    (Codec.uint32.pair (Codec.uint32.pair Codec.uint32)))))).map
    ⟨fun t => ⟨t.1, t.2.1, t.2.2.1, t.2.2.2.1, t.2.2.2.2.1, t.2.2.2.2.2.1, t.2.2.2.2.2.2⟩,
      fun p => (p.gyroX, p.gyroY, p.gyroZ, p.accX, p.accY, p.accZ, p.temperature),
      fun _ => rfl, fun _ => rfl⟩

@[simp] theorem HandshakePacket.size_codec : HandshakePacket.codec.size = 1 := rfl
@[simp] theorem RcRxPacket.size_codec : RcRxPacket.codec.size = 9 := rfl
@[simp] theorem ControlSurfacePacket.size_codec : ControlSurfacePacket.codec.size = 4 := rfl
@[simp] theorem ImuPacket.size_codec : ImuPacket.codec.size = 28 := rfl

/-- A packed record is its fields' bytes in declaration order, multi-byte fields least
significant byte first. -/
example : RcRxPacket.codec.encode ⟨0x01020304, 0x81, 50, -1, 3, -100⟩ =
    [0x04, 0x03, 0x02, 0x01, 0x81, 50, 0xff, 3, 0x9c] := by decide

/-! ## The packet types of the serial controller -/

/-- The packets `readPacket` and `writePacket` are instantiated at. -/
inductive PacketType
  | handshake
  | rcRx
  | controlSurface
  | imu
deriving DecidableEq, Repr

namespace PacketType

/-- The record of a packet type. -/
abbrev Packet : PacketType → Type
  | handshake => HandshakePacket
  | rcRx => RcRxPacket
  | controlSurface => ControlSurfacePacket
  | imu => ImuPacket

/-- The layout of a packet type. -/
def codec : (t : PacketType) → Codec t.Packet
  | handshake => HandshakePacket.codec
  | rcRx => RcRxPacket.codec
  | controlSurface => ControlSurfacePacket.codec
  | imu => ImuPacket.codec

/-- The default-constructed record of a packet type. -/
def default : (t : PacketType) → t.Packet
  | handshake => {}
  | rcRx => {}
  | controlSurface => {}
  | imu => {}

end PacketType

end RcPlane
