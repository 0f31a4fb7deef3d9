import RcPlane.Common.Packet

/-!
# The microcontroller

`setup` writes a line that the SoM flushes up to, reads the handshake byte and echoes it; `loop`
writes the two packets of its samples, reads the answer and applies it. The microcontroller is a
party that sends and receives single bytes: the step relation of the whole system decides when. A
read that times out has filled only the bytes that arrived, and the loop does not look at the
count it returns.

## Main definitions

* `McuPhase`, `Mcu`: the program counter and the memory, with the history of a run
* `Mcu.send`, `Mcu.receive`, `Mcu.done`, `Mcu.timeout`: the steps
* `Mcu.boot`, `Mcu.aligned`: the start of `setup`, and the first iteration of `loop`
* `Mcu.script`: everything sent once the write under way is over
* `Mcu.Invariant`: a property that the steps keep

## Main results

* `Mcu.done_eq_some` and its siblings: what each step can do
* `Mcu.logged_invariant`: the bytes received are those of the reads, in order
* `Mcu.traced_invariant`: the bytes sent are those of the script
-/

namespace RcPlane

open Foundation

/-- The line that `Serial.println("flush")` writes. -/
def flushLine : List UInt8 := [102, 108, 117, 115, 104, 13, 10]

/-- The packets that `loop` takes its samples into, one pair for every iteration. -/
abbrev Samples := ℕ → RcRxPacket × ImuPacket

/-- The same packets in every iteration. -/
def Samples.steady (rcRx : RcRxPacket) (imu : ImuPacket) : Samples := fun _ => (rcRx, imu)

/-- What one iteration of `loop` writes. -/
def loopCodec : Codec (RcRxPacket × ImuPacket) := RcRxPacket.codec.pair ImuPacket.codec

@[simp] theorem size_loopCodec : loopCodec.size = 37 := rfl

/-- The bytes that `n` iterations of `loop` write. -/
def loopBytes (samples : Samples) (n : ℕ) : List UInt8 :=
  loopCodec.encodeAll ((List.range n).map samples)

/-- The memory that `Serial.readBytes` leaves: the bytes that arrived, and those of the packet that
was there before. -/
def readInto {α : Type} (c : Codec α) (packet : α) (got : List UInt8) : α :=
  c.decode (got ++ (c.encode packet).drop got.length)

/-! ## The party -/

/-- The packet that is being read. -/
inductive McuRead
  | handshake
  | controlSurface
deriving DecidableEq, Repr

/-- The number of bytes that a read asks for. -/
def McuRead.size : McuRead → ℕ
  | handshake => HandshakePacket.codec.size
  | controlSurface => ControlSurfacePacket.codec.size

/-- What is being written. -/
inductive McuWrite
  | flush
  | echo
  | rcRx
  | imu
deriving DecidableEq, Repr

/-- The program counter: the operation under way, with the bytes left to write or the bytes that
have arrived. -/
inductive McuPhase
  | writing (w : McuWrite) (left : List UInt8)
  | reading (r : McuRead) (got : List UInt8)
deriving DecidableEq, Repr

/-- One iteration of `loop`, once it is over: the bytes that its read got, and `csPacket` before
and after. -/
structure Round where
  got : List UInt8
  before : ControlSurfacePacket
  after : ControlSurfacePacket
deriving DecidableEq, Repr

/-- The microcontroller: its program counter and memory, and the history of the run. -/
structure Mcu where
  phase : McuPhase
  handshakePacket : HandshakePacket := {}
  csPacket : ControlSurfacePacket := {}
  /-- History: every byte sent. -/
  sent : List UInt8 := []
  /-- History: every byte received. -/
  received : List UInt8 := []
  /-- History: the bytes that were sent before `loop`. -/
  preamble : List UInt8 := []
  /-- History: the bytes that the read of `setup` got. -/
  handshakeGot : List UInt8 := []
  /-- History: the iterations of `loop` that are over. -/
  rounds : List Round := []
deriving DecidableEq, Repr

namespace Mcu

/-- The start of `setup`. -/
def boot : Mcu where
  phase := .writing .flush flushLine

/-- The phase at the start of the `n`-th iteration of `loop`. -/
def loopPhase (samples : Samples) (n : ℕ) : McuPhase :=
  .writing .rcRx (RcRxPacket.codec.encode (samples n).1)

/-- The first iteration of `loop`, with nothing sent or received before it. -/
def aligned (samples : Samples) : Mcu where
  phase := loopPhase samples 0

/-- The next byte of the write under way. -/
def send (m : Mcu) : Option (UInt8 × Mcu) :=
  match m.phase with
  | .writing w (b :: left) =>
    some (b, { m with phase := .writing w left, sent := m.sent ++ [b] })
  | _ => none

/-- Bytes for the read under way, no more than it asks for. -/
def receive (m : Mcu) (bytes : List UInt8) : Option Mcu :=
  match m.phase with
  | .reading r got =>
    if got.length + bytes.length ≤ r.size then
      some { m with phase := .reading r (got ++ bytes), received := m.received ++ bytes }
    else none
  | _ => none

/-- What follows a read that got the given bytes, all of them or not. -/
def finishRead (samples : Samples) (m : Mcu) : McuRead → List UInt8 → Mcu
  | .handshake, got =>
    -- the packet is echoed whether or not the byte arrived
    let handshakePacket := readInto HandshakePacket.codec m.handshakePacket got
    { m with
      handshakePacket := handshakePacket
      handshakeGot := got
      phase := .writing .echo (HandshakePacket.codec.encode handshakePacket) }
  | .controlSurface, got =>
    -- the packet is applied whether or not all its bytes arrived
    let csPacket := readInto ControlSurfacePacket.codec m.csPacket got
    { m with
      csPacket := csPacket
      rounds := m.rounds ++ [⟨got, m.csPacket, csPacket⟩]
      phase := loopPhase samples (m.rounds.length + 1) }

/-- The operation under way is complete, and the program proceeds to the next. -/
def done (samples : Samples) (m : Mcu) : Option Mcu :=
  match m.phase with
  | .writing .flush [] => some { m with phase := .reading .handshake [] }
  | .writing .echo [] =>
    some { m with phase := loopPhase samples m.rounds.length, preamble := m.sent }
  | .writing .rcRx [] =>
    some { m with
      phase := .writing .imu (ImuPacket.codec.encode (samples m.rounds.length).2) }
  | .writing .imu [] => some { m with phase := .reading .controlSurface [] }
  | .reading r got => if got.length = r.size then some (finishRead samples m r got) else none
  | _ => none

/-- The read under way, which is of the given packet, times out. -/
def timeout (samples : Samples) (m : Mcu) (r : McuRead) : Option Mcu :=
  match m.phase with
  | .reading r' got =>
    if r' = r ∧ got.length < r.size then some (finishRead samples m r got) else none
  | _ => none

/-! ## What a step can do -/

theorem send_eq_some {m m' : Mcu} {b : UInt8} :
    m.send = some (b, m') ↔ ∃ w left, m.phase = .writing w (b :: left) ∧
      m' = { m with phase := .writing w left, sent := m.sent ++ [b] } := by
  unfold send
  constructor
  · intro h
    split at h
    · next w c left hphase =>
      obtain ⟨rfl, rfl⟩ := Prod.mk.inj (Option.some.inj h)
      exact ⟨w, left, hphase, rfl⟩
    · cases h
  · rintro ⟨w, left, hphase, rfl⟩
    rw [hphase]

theorem receive_eq_some {m m' : Mcu} {bytes : List UInt8} :
    m.receive bytes = some m' ↔ ∃ r got, m.phase = .reading r got ∧
      got.length + bytes.length ≤ r.size ∧
      m' = { m with phase := .reading r (got ++ bytes), received := m.received ++ bytes } := by
  unfold receive
  constructor
  · intro h
    split at h
    · next r got hphase =>
      split_ifs at h with hlen
      exact ⟨r, got, hphase, hlen, (Option.some.inj h).symm⟩
    · cases h
  · rintro ⟨r, got, hphase, hlen, rfl⟩
    rw [hphase]
    exact if_pos hlen

/-- The transitions of the program: the end of each of the four writes, and of a read that got
everything. -/
theorem done_eq_some {samples : Samples} {m m' : Mcu} (h : m.done samples = some m') :
    (m.phase = .writing .flush [] ∧ m' = { m with phase := .reading .handshake [] }) ∨
    (m.phase = .writing .echo [] ∧
      m' = { m with phase := loopPhase samples m.rounds.length, preamble := m.sent }) ∨
    (m.phase = .writing .rcRx [] ∧ m' = { m with
      phase := .writing .imu (ImuPacket.codec.encode (samples m.rounds.length).2) }) ∨
    (m.phase = .writing .imu [] ∧ m' = { m with phase := .reading .controlSurface [] }) ∨
    ∃ r got, m.phase = .reading r got ∧ got.length = r.size ∧
      m' = finishRead samples m r got := by
  unfold done at h
  split at h
  · next hphase => exact Or.inl ⟨hphase, (Option.some.inj h).symm⟩
  · next hphase => exact Or.inr (Or.inl ⟨hphase, (Option.some.inj h).symm⟩)
  · next hphase => exact Or.inr (Or.inr (Or.inl ⟨hphase, (Option.some.inj h).symm⟩))
  · next hphase => exact Or.inr (Or.inr (Or.inr (Or.inl ⟨hphase, (Option.some.inj h).symm⟩)))
  · next r got hphase =>
    split_ifs at h with hlen
    exact Or.inr (Or.inr (Or.inr (Or.inr ⟨r, got, hphase, hlen, (Option.some.inj h).symm⟩)))
  · cases h

theorem timeout_eq_some {samples : Samples} {m m' : Mcu} {r : McuRead} :
    m.timeout samples r = some m' ↔ ∃ got, m.phase = .reading r got ∧ got.length < r.size ∧
      m' = finishRead samples m r got := by
  unfold timeout
  constructor
  · intro h
    split at h
    · next r' got hphase =>
      split_ifs at h with hr
      obtain ⟨rfl, hlen⟩ := hr
      exact ⟨got, hphase, hlen, (Option.some.inj h).symm⟩
    · cases h
  · rintro ⟨got, hphase, hlen, rfl⟩
    rw [hphase]
    exact if_pos ⟨rfl, hlen⟩

/-- Going on to the next operation sends and receives nothing. -/
theorem traffic_done {samples : Samples} {m m' : Mcu} (h : m.done samples = some m') :
    m'.sent = m.sent ∧ m'.received = m.received := by
  rcases done_eq_some h with ⟨-, rfl⟩ | ⟨-, rfl⟩ | ⟨-, rfl⟩ | ⟨-, rfl⟩ | ⟨r, got, -, -, rfl⟩
  · exact ⟨rfl, rfl⟩
  · exact ⟨rfl, rfl⟩
  · exact ⟨rfl, rfl⟩
  · exact ⟨rfl, rfl⟩
  · cases r <;> exact ⟨rfl, rfl⟩

theorem traffic_timeout {samples : Samples} {m m' : Mcu} {r : McuRead}
    (h : m.timeout samples r = some m') : m'.sent = m.sent ∧ m'.received = m.received := by
  obtain ⟨got, -, -, rfl⟩ := timeout_eq_some.mp h
  cases r <;> exact ⟨rfl, rfl⟩

/-- A property of the microcontroller that its steps keep, those timeouts that are admitted
included. -/
structure Invariant (samples : Samples) (A : McuRead → Prop) (P : Mcu → Prop) : Prop where
  send : ∀ {m m' b}, P m → m.send = some (b, m') → P m'
  receive : ∀ {m m' bytes}, P m → m.receive bytes = some m' → P m'
  done : ∀ {m m'}, P m → m.done samples = some m' → P m'
  timeout : ∀ {m m' r}, A r → P m → m.timeout samples r = some m' → P m'

/-! ## What has been received -/

/-- The bytes of the write under way that are left. -/
def left (m : Mcu) : List UInt8 :=
  match m.phase with
  | .writing _ left => left
  | .reading _ _ => []

/-- The bytes that the read under way has got. -/
def got (m : Mcu) : List UInt8 :=
  match m.phase with
  | .writing _ _ => []
  | .reading _ got => got

/-- The program has entered `loop`. -/
def InLoop (m : Mcu) : Prop :=
  match m.phase with
  | .writing .flush _ => False
  | .reading .handshake _ => False
  | .writing .echo _ => False
  | .writing .rcRx _ => True
  | .writing .imu _ => True
  | .reading .controlSurface _ => True

/-- The read of the handshake is not over. -/
def Awaiting (m : Mcu) : Prop :=
  match m.phase with
  | .writing .flush _ => True
  | .reading .handshake _ => True
  | _ => False

/-- Sending a byte stays within the write under way. -/
theorem stage_send {m m' : Mcu} {b : UInt8} (h : m.send = some (b, m')) :
    (m'.InLoop ↔ m.InLoop) ∧ (m'.Awaiting ↔ m.Awaiting) := by
  obtain ⟨w, rest, hphase, rfl⟩ := send_eq_some.mp h
  simp only [InLoop, Awaiting, hphase]
  cases w <;> exact ⟨Iff.rfl, Iff.rfl⟩

/-- Receiving bytes stays within the read under way. -/
theorem stage_receive {m m' : Mcu} {bytes : List UInt8} (h : m.receive bytes = some m') :
    (m'.InLoop ↔ m.InLoop) ∧ (m'.Awaiting ↔ m.Awaiting) := by
  obtain ⟨r, got, hphase, -, rfl⟩ := receive_eq_some.mp h
  simp only [InLoop, Awaiting, hphase]
  cases r <;> exact ⟨Iff.rfl, Iff.rfl⟩

/-- The bytes received are those of the reads, in order; a read gets no more than it asks for; and
the packets read into are what the bytes that arrived made of them. -/
structure Logged (m : Mcu) : Prop where
  received : m.received = m.handshakeGot ++ (m.rounds.flatMap Round.got ++ m.got)
  fits : ∀ r got, m.phase = .reading r got → got.length ≤ r.size
  rounds : ∀ r ∈ m.rounds, r.got.length ≤ ControlSurfacePacket.codec.size ∧
    r.after = readInto ControlSurfacePacket.codec r.before r.got
  setup : ¬ m.InLoop → m.rounds = []
  handshakeGot : m.Awaiting → m.handshakeGot = []
  handshakePacket : m.handshakePacket = readInto HandshakePacket.codec {} m.handshakeGot

theorem readInto_nil {α : Type} (c : Codec α) (packet : α) : readInto c packet [] = packet :=
  c.decode_encode packet

theorem logged_boot : boot.Logged where
  received := rfl
  fits _ _ h := by cases h
  rounds _ h := by cases h
  setup _ := rfl
  handshakeGot _ := rfl
  handshakePacket := rfl

theorem logged_aligned (samples : Samples) : (aligned samples).Logged where
  received := rfl
  fits _ _ h := by cases h
  rounds _ h := by cases h
  setup _ := rfl
  handshakeGot _ := rfl
  handshakePacket := rfl

theorem Logged.finishRead {samples : Samples} {m : Mcu} {r : McuRead} {got : List UInt8}
    (h : m.Logged) (hphase : m.phase = .reading r got) : (finishRead samples m r got).Logged := by
  have hreceived := h.received
  rw [Mcu.got, hphase] at hreceived
  cases r with
  | handshake =>
    -- before the read of `setup` is over there are no rounds, and nothing was got
    have hrounds : m.rounds = [] := by
      apply h.setup
      rw [InLoop, hphase]
      exact not_false
    have hgot : m.handshakeGot = [] := by
      apply h.handshakeGot
      rw [Awaiting, hphase]
      trivial
    have hpacket := h.handshakePacket
    rw [hgot, readInto_nil] at hpacket
    rw [hrounds, hgot] at hreceived
    refine ⟨?_, ?_, h.rounds, fun _ => hrounds, fun hawait => absurd hawait not_false, ?_⟩
    · show m.received = got ++ (m.rounds.flatMap Round.got ++ [])
      rw [hreceived, hrounds]
      exact (List.append_nil got).symm
    · intro r' got' hphase'
      cases hphase'
    · show readInto HandshakePacket.codec m.handshakePacket got = _
      rw [hpacket]
      rfl
  | controlSurface =>
    -- the round joins the log with the bytes that its read got, however few
    refine ⟨?_, ?_, ?_, fun hloop => absurd trivial hloop, fun hawait => absurd hawait not_false,
      h.handshakePacket⟩
    · show m.received = m.handshakeGot ++ ((m.rounds ++ [_]).flatMap Round.got ++ [])
      rw [hreceived, List.flatMap_append, List.flatMap_singleton, List.append_nil]
    · intro r' got' hphase'
      cases hphase'
    · intro r' hr'
      rcases List.mem_append.mp hr' with hr' | hr'
      · exact h.rounds r' hr'
      · obtain rfl := List.mem_singleton.mp hr'
        exact ⟨h.fits _ _ hphase, rfl⟩

/-- Going on from a write to the next operation adds nothing to the log. -/
theorem Logged.proceed {m : Mcu} {w : McuWrite} {phase : McuPhase} {preamble : List UInt8}
    (h : m.Logged) (hphase : m.phase = .writing w [])
    (hnext : (∃ w' left, phase = .writing w' left) ∨ ∃ r, phase = .reading r [])
    (hloop : m.InLoop → ({ m with phase := phase, preamble := preamble } : Mcu).InLoop)
    (hawait : ({ m with phase := phase, preamble := preamble } : Mcu).Awaiting → m.Awaiting) :
    ({ m with phase := phase, preamble := preamble } : Mcu).Logged := by
  obtain ⟨hreceived, -, hrounds, hsetup, hgot, hpacket⟩ := h
  rw [Mcu.got, hphase] at hreceived
  refine ⟨?_, ?_, hrounds, fun hn => hsetup fun hl => hn (hloop hl), fun ha => hgot (hawait ha),
    hpacket⟩
  · rcases hnext with ⟨w', left, rfl⟩ | ⟨r, rfl⟩
    · exact hreceived
    · exact hreceived
  · rintro r got rfl
    rcases hnext with ⟨w', left, hw⟩ | ⟨r', hr⟩
    · cases hw
    · obtain ⟨rfl, rfl⟩ := McuPhase.reading.inj hr
      exact Nat.zero_le _

/-- Every step keeps the log. -/
theorem logged_invariant (samples : Samples) : Invariant samples (fun _ => True) Logged where
  send {m m' b} h hstep := by
    obtain ⟨hloop, hawait⟩ := stage_send hstep
    obtain ⟨w, rest, hphase, rfl⟩ := send_eq_some.mp hstep
    obtain ⟨hreceived, -, hrounds, hsetup, hgot, hpacket⟩ := h
    rw [Mcu.got, hphase] at hreceived
    -- a byte sent is no byte received, and no read is under way
    refine ⟨hreceived, fun r got hphase' => ?_, hrounds, ?_, ?_, hpacket⟩
    · cases hphase'
    · exact fun hn => hsetup fun hm => hn (hloop.mpr hm)
    · exact fun hm => hgot (hawait.mp hm)
  receive {m m' bytes} h hstep := by
    obtain ⟨hloop, hawait⟩ := stage_receive hstep
    obtain ⟨r, got, hphase, hfits, rfl⟩ := receive_eq_some.mp hstep
    obtain ⟨hreceived, -, hrounds, hsetup, hgot, hpacket⟩ := h
    rw [Mcu.got, hphase] at hreceived
    refine ⟨?_, ?_, hrounds, ?_, ?_, hpacket⟩
    · show m.received ++ bytes = m.handshakeGot ++ (m.rounds.flatMap Round.got ++ (got ++ bytes))
      rw [hreceived]
      simp only [List.append_assoc]
    · intro r' got' hphase'
      obtain ⟨rfl, rfl⟩ := McuPhase.reading.inj hphase'
      rw [List.length_append]
      exact hfits
    · exact fun hn => hsetup fun hm => hn (hloop.mpr hm)
    · exact fun hm => hgot (hawait.mp hm)
  done {m m'} h hstep := by
    rcases done_eq_some hstep with ⟨hphase, rfl⟩ | ⟨hphase, rfl⟩ | ⟨hphase, rfl⟩ |
      ⟨hphase, rfl⟩ | ⟨r, got, hphase, -, rfl⟩
    -- the four writes, and a read that got everything
    · refine h.proceed hphase (Or.inr ⟨_, rfl⟩) (fun hloop => ?_) fun _ => ?_
      · rw [InLoop, hphase] at hloop
        exact hloop
      · rw [Awaiting, hphase]
        trivial
    · exact h.proceed hphase (Or.inl ⟨_, _, rfl⟩) (fun _ => trivial) fun hawait => hawait.elim
    · exact h.proceed hphase (Or.inl ⟨_, _, rfl⟩) (fun _ => trivial) fun hawait => hawait.elim
    · exact h.proceed hphase (Or.inr ⟨_, rfl⟩) (fun _ => trivial) fun hawait => hawait.elim
    · exact h.finishRead hphase
  timeout {m m' r} _ h hstep := by
    obtain ⟨got, hphase, -, rfl⟩ := timeout_eq_some.mp hstep
    exact h.finishRead hphase

/-! ## What has been sent -/

/-- Everything sent once the write under way is over. -/
def script (samples : Samples) (m : Mcu) : List UInt8 :=
  match m.phase with
  | .writing .flush _ => flushLine
  | .reading .handshake _ => flushLine
  | .writing .echo _ => flushLine ++ HandshakePacket.codec.encode m.handshakePacket
  | .writing .rcRx _ =>
    m.preamble ++
      (loopBytes samples m.rounds.length ++ RcRxPacket.codec.encode (samples m.rounds.length).1)
  | .writing .imu _ => m.preamble ++ loopBytes samples (m.rounds.length + 1)
  | .reading .controlSurface _ => m.preamble ++ loopBytes samples (m.rounds.length + 1)

/-- The log is kept, and what was sent and what is left of the write under way are the script. -/
structure Traced (samples : Samples) (m : Mcu) : Prop extends m.Logged where
  sent_left : m.sent ++ m.left = m.script samples

theorem loopBytes_succ (samples : Samples) (n : ℕ) :
    loopBytes samples (n + 1) = loopBytes samples n ++
      (RcRxPacket.codec.encode (samples n).1 ++ ImuPacket.codec.encode (samples n).2) := by
  rw [loopBytes, List.range_succ, List.map_append, List.map_singleton, loopCodec.encodeAll_snoc]
  rfl

theorem traced_boot (samples : Samples) : boot.Traced samples := ⟨logged_boot, rfl⟩

theorem traced_aligned (samples : Samples) : (aligned samples).Traced samples :=
  ⟨logged_aligned samples, rfl⟩

theorem Traced.sent_of_reading {samples : Samples} {m : Mcu} {r : McuRead} {got : List UInt8}
    (h : m.Traced samples) (hphase : m.phase = .reading r got) : m.sent = m.script samples := by
  have hsent := h.sent_left
  rw [left, hphase, List.append_nil] at hsent
  exact hsent

theorem Traced.sent_of_written {samples : Samples} {m : Mcu} {w : McuWrite}
    (h : m.Traced samples) (hphase : m.phase = .writing w []) : m.sent = m.script samples := by
  have hsent := h.sent_left
  rw [left, hphase, List.append_nil] at hsent
  exact hsent

/-- After a read the next thing written is its echo, or the next iteration's first packet. -/
theorem Traced.finishRead {samples : Samples} {m : Mcu} {r : McuRead} {got : List UInt8}
    (h : m.Traced samples) (hphase : m.phase = .reading r got) :
    (finishRead samples m r got).Traced samples := by
  refine ⟨h.toLogged.finishRead hphase, ?_⟩
  cases r with
  | handshake =>
    -- the echo is written after the line
    have hsent : m.sent = flushLine := by
      rw [h.sent_of_reading hphase, script, hphase]
    show m.sent ++ HandshakePacket.codec.encode _ = flushLine ++ HandshakePacket.codec.encode _
    rw [hsent]
    rfl
  | controlSurface =>
    -- the iterations written so far are one more than those that are over
    have hsent : m.sent = m.preamble ++ loopBytes samples (m.rounds.length + 1) := by
      rw [h.sent_of_reading hphase, script, hphase]
    show m.sent ++ RcRxPacket.codec.encode _ = m.preamble ++
      (loopBytes samples (m.rounds ++ [_]).length ++ RcRxPacket.codec.encode
        (samples (m.rounds ++ [_]).length).1)
    rw [hsent, List.length_append, List.length_singleton, List.append_assoc]

/-- Every step keeps to the script. -/
theorem traced_invariant (samples : Samples) :
    Invariant samples (fun _ => True) (Traced samples) where
  send {m m' b} h hstep := by
    refine ⟨(logged_invariant samples).send h.toLogged hstep, ?_⟩
    obtain ⟨w, rest, hphase, rfl⟩ := send_eq_some.mp hstep
    have hsent := h.sent_left
    rw [left, hphase, script, hphase] at hsent
    -- the byte goes from what is left to what was sent
    show (m.sent ++ [b]) ++ rest = _
    rw [List.append_assoc, List.singleton_append]
    cases w <;> exact hsent
  receive {m m' bytes} h hstep := by
    refine ⟨(logged_invariant samples).receive h.toLogged hstep, ?_⟩
    obtain ⟨r, got, hphase, -, rfl⟩ := receive_eq_some.mp hstep
    have hsent := h.sent_left
    rw [left, hphase, script, hphase] at hsent
    cases r <;> exact hsent
  done {m m'} h hstep := by
    have hlogged := (logged_invariant samples).done h.toLogged hstep
    rcases done_eq_some hstep with ⟨hphase, rfl⟩ | ⟨hphase, rfl⟩ | ⟨hphase, rfl⟩ |
      ⟨hphase, rfl⟩ | ⟨r, got, hphase, -, rfl⟩
    · have hsent := h.sent_of_written hphase
      rw [script, hphase] at hsent
      exact ⟨hlogged, (List.append_nil _).trans hsent⟩
    · -- the first iteration follows what was sent so far
      have hrounds : m.rounds = [] := by
        apply h.setup
        rw [InLoop, hphase]
        exact not_false
      refine ⟨hlogged, ?_⟩
      show m.sent ++ RcRxPacket.codec.encode (samples m.rounds.length).1 =
        m.sent ++ (loopBytes samples m.rounds.length ++
          RcRxPacket.codec.encode (samples m.rounds.length).1)
      rw [hrounds]
      rfl
    · -- the second packet completes what the iteration writes
      have hsent := h.sent_of_written hphase
      rw [script, hphase] at hsent
      refine ⟨hlogged, ?_⟩
      show m.sent ++ ImuPacket.codec.encode (samples m.rounds.length).2 =
        m.preamble ++ loopBytes samples (m.rounds.length + 1)
      rw [hsent, loopBytes_succ]
      simp only [List.append_assoc]
    · have hsent := h.sent_of_written hphase
      rw [script, hphase] at hsent
      exact ⟨hlogged, (List.append_nil _).trans hsent⟩
    · exact h.finishRead hphase
  timeout {m m' r} _ h hstep := by
    obtain ⟨got, hphase, -, rfl⟩ := timeout_eq_some.mp hstep
    exact h.finishRead hphase

/-! ## From the first iteration on -/

/-- The program is in `loop`, and there was no `setup`. -/
structure FromLoop (m : Mcu) : Prop where
  inLoop : m.InLoop
  preamble : m.preamble = []
  handshakeGot : m.handshakeGot = []

theorem fromLoop_aligned (samples : Samples) : (aligned samples).FromLoop := ⟨trivial, rfl, rfl⟩

theorem FromLoop.finishRead {samples : Samples} {m : Mcu} {r : McuRead} {got : List UInt8}
    (h : m.FromLoop) (hphase : m.phase = .reading r got) :
    (finishRead samples m r got).FromLoop := by
  have hloop := h.inLoop
  rw [InLoop, hphase] at hloop
  cases r with
  | handshake => exact hloop.elim
  | controlSurface => exact ⟨trivial, h.preamble, h.handshakeGot⟩

/-- `loop` is never left. -/
theorem fromLoop_invariant (samples : Samples) :
    Invariant samples (fun _ => True) FromLoop where
  send {m m' b} h hstep := by
    have hloop := (stage_send hstep).1.mpr h.inLoop
    obtain ⟨w, rest, -, rfl⟩ := send_eq_some.mp hstep
    exact ⟨hloop, h.preamble, h.handshakeGot⟩
  receive {m m' bytes} h hstep := by
    have hloop := (stage_receive hstep).1.mpr h.inLoop
    obtain ⟨r, got, -, -, rfl⟩ := receive_eq_some.mp hstep
    exact ⟨hloop, h.preamble, h.handshakeGot⟩
  done {m m'} h hstep := by
    obtain ⟨hloop, hpreamble, hgot⟩ := h
    rcases done_eq_some hstep with ⟨hphase, rfl⟩ | ⟨hphase, rfl⟩ | ⟨hphase, rfl⟩ |
      ⟨hphase, rfl⟩ | ⟨r, got, hphase, -, rfl⟩
    -- the first two operations are those of `setup`
    · rw [InLoop, hphase] at hloop
      exact hloop.elim
    · rw [InLoop, hphase] at hloop
      exact hloop.elim
    · exact ⟨trivial, hpreamble, hgot⟩
    · exact ⟨trivial, hpreamble, hgot⟩
    · exact FromLoop.finishRead ⟨hloop, hpreamble, hgot⟩ hphase
  timeout {m m' r} _ h hstep := by
    obtain ⟨got, hphase, -, rfl⟩ := timeout_eq_some.mp hstep
    exact h.finishRead hphase

/-- What `loop` has sent is a prefix of what its iterations write, the current one included. -/
theorem sent_of_fromLoop {samples : Samples} {m : Mcu} (h : m.Traced samples)
    (hloop : m.FromLoop) : m.sent <+: loopBytes samples (m.rounds.length + 1) := by
  have hsent := h.sent_left
  obtain ⟨hin, hpreamble, -⟩ := hloop
  rw [script, hpreamble] at hsent
  cases hphase : m.phase with
  | writing w rest =>
    rw [InLoop, hphase] at hin
    rw [left, hphase] at hsent
    cases w with
    | flush => exact hin.elim
    | echo => exact hin.elim
    | rcRx =>
      -- the rest of this packet and the next one are still to come
      refine ⟨rest ++ ImuPacket.codec.encode (samples m.rounds.length).2, ?_⟩
      rw [← List.append_assoc, hsent, loopBytes_succ, List.nil_append, List.append_assoc]
    | imu => exact ⟨rest, hsent⟩
  | reading r got =>
    rw [InLoop, hphase] at hin
    rw [left, hphase] at hsent
    cases r with
    | handshake => exact hin.elim
    | controlSurface => exact ⟨[], hsent⟩

/-- No read of `loop` has timed out. -/
def Full (m : Mcu) : Prop := ∀ r ∈ m.rounds, r.got.length = ControlSurfacePacket.codec.size

theorem full_aligned (samples : Samples) : (aligned samples).Full := by
  intro r h
  cases h

theorem full_invariant (samples : Samples) : Invariant samples (fun _ => False) Full where
  send {m m' b} h hstep := by
    obtain ⟨w, rest, -, rfl⟩ := send_eq_some.mp hstep
    exact h
  receive {m m' bytes} h hstep := by
    obtain ⟨r, got, -, -, rfl⟩ := receive_eq_some.mp hstep
    exact h
  done {m m'} h hstep := by
    rcases done_eq_some hstep with ⟨-, rfl⟩ | ⟨-, rfl⟩ | ⟨-, rfl⟩ | ⟨-, rfl⟩ |
      ⟨r, got, -, hgot, rfl⟩
    -- only the end of a read adds a round
    · exact h
    · exact h
    · exact h
    · exact h
    · cases r with
      | handshake => exact h
      | controlSurface =>
        intro r' hr'
        rcases List.mem_append.mp hr' with hr' | hr'
        · exact h r' hr'
        · obtain rfl := List.mem_singleton.mp hr'
          exact hgot
  timeout {m m' r} ha := ha.elim

/-- A read that gets everything replaces the packet. -/
theorem readInto_full {α : Type} {c : Codec α} {got : List UInt8} (h : got.length = c.size)
    (packet : α) : readInto c packet got = c.decode got := by
  -- nothing of the old packet is left behind the bytes that arrived
  have hdrop : (c.encode packet).drop got.length = [] := by
    apply List.drop_eq_nil_of_le
    rw [c.length_encode, h]
  rw [readInto, hdrop, List.append_nil]

/-- The bytes of rounds that got everything. -/
theorem length_flatMap_got {rounds : List Round}
    (h : ∀ r ∈ rounds, r.got.length = ControlSurfacePacket.codec.size) :
    (rounds.flatMap Round.got).length = 4 * rounds.length := by
  induction rounds with
  | nil => rfl
  | cons r rounds ih =>
    have hr : r.got.length = 4 := h r List.mem_cons_self
    rw [List.flatMap_cons, List.length_append, List.length_cons, hr,
      ih fun r' hr' => h r' (List.mem_cons_of_mem r hr')]
    ring

end Mcu

end RcPlane
