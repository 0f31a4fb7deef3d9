import RcPlane.Common.Packet

/-!
# The serial controller

`readPacket` starts an operation that transfers exactly the size of its packet from the port into
`m_streamBuffer`, in pieces of whatever sizes the port hands over, and on completion takes the
packet off the front of the buffer. An operation that times out is cancelled and leaves the bytes
it had transferred in the buffer, before those of the next operation. Nothing is framed, so what a
packet is depends only on how many bytes were taken before it.

## Main definitions

* `ReadResult`: what a read reports
* `SerialController.append`, `SerialController.completeRead`: the effect of a piece and of the
  completion handler on the buffer
* `SerialController.readPacket`, `SerialController.readPackets`: one call, and a sequence of calls
* `SerialController.writePacket`: the bytes a write hands over
* `SerialController.untilSize`, `SerialController.completeFlush`: the search and the handler of
  `flush`

## Main results

* `readPacket_conserves`, `readPackets_conserves`: returned bytes, buffer and port make up what
  was there before
* `didTimeout_readPacket`: a read completes exactly when a whole packet is transferred by it
* `readPackets_writePackets`: what was written is read back
* `serial_conservation`: both, for every sequence of calls
-/

namespace RcPlane

open Foundation

/-- What a read reports. A timed-out read reports the default packet. -/
structure ReadResult (t : PacketType) where
  packet : t.Packet := t.default
  didTimeout : Bool := true
  bytesRead : ℕ := 0

/-- The bytes of the packet that a read returns, if it did not time out. -/
def ReadResult.bytes {t : PacketType} (r : ReadResult t) : List UInt8 :=
  if r.didTimeout then [] else t.codec.encode r.packet

/-- The controller's memory: the bytes transferred and not consumed. -/
structure SerialController where
  streamBuffer : List UInt8 := []
deriving DecidableEq, Repr

namespace SerialController

/-! ## One call -/

/-- A piece that the port hands over is appended to the buffer. -/
def append (s : SerialController) (piece : List UInt8) : SerialController :=
  { s with streamBuffer := s.streamBuffer ++ piece }

/-- The completion handler of a read: the packet at the front of the buffer, which is consumed. -/
def completeRead (t : PacketType) (s : SerialController) : ReadResult t × SerialController :=
  ({ packet := t.codec.decode (s.streamBuffer.take t.codec.size), didTimeout := false },
    { s with streamBuffer := s.streamBuffer.drop t.codec.size })

/-- The transfers of an operation that still needs `need` bytes. The port hands over pieces of the
given sizes, or fewer bytes where it has fewer, and never more than are needed. -/
def transfer : ℕ → List ℕ → SerialController → List UInt8 → ℕ × SerialController × List UInt8
  | need, [], s, port => (need, s, port)
  | need, piece :: pieces, s, port =>
    transfer (need - min piece (min need port.length)) pieces
      (s.append (port.take (min piece (min need port.length))))
      (port.drop (min piece (min need port.length)))

/-- One call of `readPacket`, given the sizes of the pieces the port hands over before the
timeout. -/
def readPacket (t : PacketType) (pieces : List ℕ) (s : SerialController) (port : List UInt8) :
    ReadResult t × SerialController × List UInt8 :=
  match transfer t.codec.size pieces s port with
  | (0, s', port') => ((completeRead t s').1, (completeRead t s').2, port')
  | (_ + 1, s', port') => ({}, s', port')

/-- A call of `writePacket` that does not time out hands over the packet's bytes. -/
def writePacket (t : PacketType) (packet : t.Packet) (port : List UInt8) : List UInt8 :=
  port ++ t.codec.encode packet

/-- What `async_read_until` looks for in the buffer: the number of bytes up to and including the
first occurrence of the terminator. -/
def untilSize (terminator : List UInt8) : List UInt8 → Option ℕ
  | [] => if terminator = [] then some 0 else none
  | b :: rest =>
    if terminator <+: b :: rest then some terminator.length
    else (untilSize terminator rest).map (· + 1)

/-- The completion handler of `flush`, which consumes twice the reported size; the buffer gives as
much of it as it has. -/
def completeFlush (size : ℕ) (s : SerialController) : SerialController :=
  { s with streamBuffer := s.streamBuffer.drop (size * 2) }

/-- A sequence of reads, each of its own packet type. -/
def readPackets : List (PacketType × List ℕ) → SerialController → List UInt8 →
    List ((t : PacketType) × ReadResult t) × SerialController × List UInt8
  | [], s, port => ([], s, port)
  | (t, pieces) :: calls, s, port =>
    let r := readPacket t pieces s port
    let rest := readPackets calls r.2.1 r.2.2
    (⟨t, r.1⟩ :: rest.1, rest.2)

/-- A sequence of writes. -/
def writePackets (packets : List ((t : PacketType) × t.Packet)) (port : List UInt8) :
    List UInt8 :=
  packets.foldl (fun port p => writePacket p.1 p.2 port) port

/-- The bytes of the packets returned, in order. -/
def returnedBytes (results : List ((t : PacketType) × ReadResult t)) : List UInt8 :=
  results.flatMap fun r => r.2.bytes

@[simp] theorem streamBuffer_append (s : SerialController) (piece : List UInt8) :
    (s.append piece).streamBuffer = s.streamBuffer ++ piece := rfl

@[simp] theorem didTimeout_completeRead (t : PacketType) (s : SerialController) :
    (completeRead t s).1.didTimeout = false := rfl

/-- The bytes of a read that completed are those of its packet. -/
theorem ReadResult.bytes_of_completed {t : PacketType} {r : ReadResult t}
    (h : r.didTimeout = false) : r.bytes = t.codec.encode r.packet := by
  rw [ReadResult.bytes, if_neg (by simp [h])]

/-- A completed read moves the front of the buffer into its packet. -/
theorem bytes_completeRead {t : PacketType} {s : SerialController}
    (h : t.codec.size ≤ s.streamBuffer.length) :
    (completeRead t s).1.bytes = s.streamBuffer.take t.codec.size :=
  t.codec.encode_decode_take h

theorem completeRead_conserves {t : PacketType} {s : SerialController}
    (h : t.codec.size ≤ s.streamBuffer.length) :
    (completeRead t s).1.bytes ++ (completeRead t s).2.streamBuffer = s.streamBuffer := by
  rw [bytes_completeRead h]
  exact List.take_append_drop _ _

/-! ## Transfers -/

/-- Pieces of any sizes transfer a prefix of the port to the end of the buffer: as many bytes as
the pieces, the port and the operation's need allow. -/
theorem transfer_eq (pieces : List ℕ) (need : ℕ) (s : SerialController) (port : List UInt8) :
    transfer need pieces s port =
      (need - min pieces.sum (min need port.length),
        s.append (port.take (min pieces.sum (min need port.length))),
        port.drop (min pieces.sum (min need port.length))) := by
  induction pieces generalizing need s port with
  | nil => simp [transfer, append]
  | cons piece pieces ih =>
    -- the two transfers in a row take as many bytes as one
    have hsum : min piece (min need port.length) +
        min pieces.sum (min (need - min piece (min need port.length))
          (port.length - min piece (min need port.length))) =
        min (piece + pieces.sum) (min need port.length) := by
      omega
    rw [transfer, ih, List.length_drop, List.sum_cons, ← hsum, List.drop_drop, List.take_add]
    simp only [append, List.append_assoc]
    congr 1
    omega

/-- **Completion.** A read completes exactly when its own transfers make up a whole packet. -/
theorem didTimeout_readPacket (t : PacketType) (pieces : List ℕ) (s : SerialController)
    (port : List UInt8) :
    (readPacket t pieces s port).1.didTimeout = false ↔
      t.codec.size ≤ pieces.sum ∧ t.codec.size ≤ port.length := by
  rw [readPacket, transfer_eq]
  split
  · next heq =>
    have hneed := (Prod.mk.injEq ..).mp heq
    rw [didTimeout_completeRead]
    simp only [true_iff]
    omega
  · next heq =>
    have hneed := (Prod.mk.injEq ..).mp heq
    simp only [Bool.true_eq_false, false_iff]
    omega

/-- A read from an empty buffer leaves it empty, and takes the first packet of the port, if enough
pieces arrive before the timeout. -/
theorem readPacket_of_empty {t : PacketType} {pieces : List ℕ} (h : t.codec.size ≤ pieces.sum)
    (packet : t.Packet) (rest : List UInt8) :
    readPacket t pieces {} (t.codec.encode packet ++ rest) =
      ({ packet := packet, didTimeout := false }, {}, rest) := by
  have hlen : min pieces.sum (min t.codec.size (t.codec.encode packet ++ rest).length) =
      t.codec.size := by
    rw [List.length_append, t.codec.length_encode]
    omega
  rw [readPacket, transfer_eq, hlen, Nat.sub_self, t.codec.drop_append,
    List.take_left' (t.codec.length_encode packet)]
  have hdrop : (t.codec.encode packet).drop t.codec.size = [] :=
    List.drop_eq_nil_of_le (t.codec.length_encode packet).le
  have htake : (t.codec.encode packet).take t.codec.size = t.codec.encode packet :=
    List.take_of_length_le (t.codec.length_encode packet).le
  simp only [completeRead, append, List.nil_append, htake, hdrop, t.codec.decode_encode]

/-! ## Conservation -/

/-- One read loses, duplicates and reorders nothing. -/
theorem readPacket_conserves (t : PacketType) (pieces : List ℕ) (s : SerialController)
    (port : List UInt8) :
    (readPacket t pieces s port).1.bytes ++
        ((readPacket t pieces s port).2.1.streamBuffer ++ (readPacket t pieces s port).2.2) =
      s.streamBuffer ++ port := by
  rw [readPacket, transfer_eq]
  generalize hn : min pieces.sum (min t.codec.size port.length) = n
  cases hneed : t.codec.size - n with
  | zero =>
    -- the operation completed: its packet comes from the front of a long enough buffer
    have hlen : t.codec.size ≤ (s.append (port.take n)).streamBuffer.length := by
      rw [streamBuffer_append, List.length_append, List.length_take]
      omega
    show (completeRead t _).1.bytes ++ ((completeRead t _).2.streamBuffer ++ port.drop n) = _
    rw [← List.append_assoc, completeRead_conserves hlen, streamBuffer_append, List.append_assoc,
      List.take_append_drop]
  | succ m =>
    -- it timed out: nothing is returned and the transferred bytes stay
    show [] ++ ((s.append (port.take n)).streamBuffer ++ port.drop n) = _
    rw [List.nil_append, streamBuffer_append, List.append_assoc, List.take_append_drop]

theorem readPackets_conserves (calls : List (PacketType × List ℕ)) (s : SerialController)
    (port : List UInt8) :
    returnedBytes (readPackets calls s port).1 ++
        ((readPackets calls s port).2.1.streamBuffer ++ (readPackets calls s port).2.2) =
      s.streamBuffer ++ port := by
  induction calls generalizing s port with
  | nil => rfl
  | cons call calls ih =>
    obtain ⟨t, pieces⟩ := call
    have h := readPacket_conserves t pieces s port
    rw [← ih (readPacket t pieces s port).2.1 (readPacket t pieces s port).2.2,
      ← List.append_assoc] at h
    exact h

/-! ## Round trip -/

theorem writePackets_eq (packets : List ((t : PacketType) × t.Packet)) (port : List UInt8) :
    writePackets packets port = port ++ packets.flatMap fun p => p.1.codec.encode p.2 := by
  induction packets generalizing port with
  | nil => simp [writePackets]
  | cons p packets ih =>
    have h := ih (writePacket p.1 p.2 port)
    rw [writePacket, List.append_assoc] at h
    exact h

/-- Reads of the types that were written, none of which times out, return the packets written and
leave what follows them. -/
theorem readPackets_writePackets (sent : List (((t : PacketType) × t.Packet) × List ℕ))
    (h : ∀ p ∈ sent, p.1.1.codec.size ≤ p.2.sum) (rest : List UInt8) :
    readPackets (sent.map fun p => (p.1.1, p.2)) {}
        (writePackets (sent.map Prod.fst) [] ++ rest) =
      (sent.map fun p => ⟨p.1.1, { packet := p.1.2, didTimeout := false }⟩, {}, rest) := by
  rw [writePackets_eq, List.nil_append]
  induction sent with
  | nil => rfl
  | cons p sent ih =>
    obtain ⟨⟨t, packet⟩, pieces⟩ := p
    have hp : t.codec.size ≤ pieces.sum := h _ List.mem_cons_self
    have hrest := ih fun q hq => h q (List.mem_cons_of_mem _ hq)
    simp only [List.map_cons, List.flatMap_cons, List.append_assoc, readPackets,
      readPacket_of_empty hp, hrest]

/-- **Byte conservation and round trip.** Whatever each read of a sequence is, and whether it
completes or times out, the bytes of the returned packets, then the buffer, then the undelivered
bytes are the initial buffer followed by the stream. From an empty buffer, reads of the types that
were written return the packets written, whatever the pieces, as long as enough of them arrive. -/
theorem serial_conservation :
    (∀ (calls : List (PacketType × List ℕ)) (s : SerialController) (port : List UInt8),
      returnedBytes (readPackets calls s port).1 <+: s.streamBuffer ++ port ∧
        returnedBytes (readPackets calls s port).1 ++
            ((readPackets calls s port).2.1.streamBuffer ++ (readPackets calls s port).2.2) =
          s.streamBuffer ++ port) ∧
      ∀ sent : List (((t : PacketType) × t.Packet) × List ℕ),
        (∀ p ∈ sent, p.1.1.codec.size ≤ p.2.sum) →
          readPackets (sent.map fun p => (p.1.1, p.2)) {} (writePackets (sent.map Prod.fst) []) =
            (sent.map fun p => ⟨p.1.1, { packet := p.1.2, didTimeout := false }⟩, {}, []) := by
  refine ⟨fun calls s port => ⟨⟨_, readPackets_conserves calls s port⟩,
    readPackets_conserves calls s port⟩, fun sent h => ?_⟩
  have hread := readPackets_writePackets sent h []
  rw [List.append_nil] at hread
  exact hread

end SerialController

end RcPlane
