import RcPlane.Serial.SerialController

/-!
# Reading from a buffer that is not empty

A read takes its packet from the front of the buffer, so the bytes that earlier operations left
there belong to it; but the operation it waits for counts the bytes that it transfers itself, and
those only. Whenever the packet is available only together with bytes left over, the read times
out with the whole packet in the buffer.

## Main definitions

* `arrived`: how many bytes the port hands over before the timeout
* `ReadsNext`: a read returns the next unread bytes

## Main results

* `exists_residue`: timed-out reads can leave any bytes in the buffer
* `readsNext_available_iff`: a read succeeds whenever a packet is available, exactly when the
  bytes left over are not needed for it
-/

namespace RcPlane

open Foundation

namespace SerialController

/-- How many bytes arrive before the timeout. -/
def arrived (pieces : List ℕ) (port : List UInt8) : ℕ := min pieces.sum port.length

/-- A read returns the next unread bytes, those in the buffer before those of the port. -/
def ReadsNext (t : PacketType) (pieces : List ℕ) (s : SerialController) (port : List UInt8) :
    Prop :=
  (readPacket t pieces s port).1.didTimeout = false ∧
    (readPacket t pieces s port).1.bytes = (s.streamBuffer ++ port).take t.codec.size

/-! ## What timed-out reads leave -/

/-- A read that times out leaves what has arrived behind what the buffer holds. -/
theorem readPacket_of_arrived_lt {t : PacketType} {pieces : List ℕ} {port : List UInt8}
    (h : arrived pieces port < t.codec.size) (s : SerialController) :
    readPacket t pieces s port =
      ({}, s.append (port.take (arrived pieces port)), port.drop (arrived pieces port)) := by
  have hmin : min pieces.sum (min t.codec.size port.length) = arrived pieces port := by
    unfold arrived at h ⊢
    omega
  obtain ⟨need, hneed⟩ : ∃ need, t.codec.size - arrived pieces port = need + 1 :=
    ⟨t.codec.size - arrived pieces port - 1, by omega⟩
  rw [readPacket, transfer_eq, hmin, hneed]

/-- Reads of an IMU packet that get one byte each leave all those bytes in the buffer. -/
theorem readPackets_residue (residue : List UInt8) (s : SerialController) :
    (readPackets (residue.map fun _ => (.imu, [1])) s residue).2 =
      ({ s with streamBuffer := s.streamBuffer ++ residue }, []) := by
  induction residue generalizing s with
  | nil => simp [readPackets]
  | cons b residue ih =>
    have harrived : arrived [1] (b :: residue) = 1 := by simp [arrived]
    have hlt : arrived [1] (b :: residue) < PacketType.imu.codec.size := by
      rw [harrived]
      decide
    have hread := readPacket_of_arrived_lt hlt s
    rw [harrived] at hread
    simp only [List.map_cons, readPackets, hread, List.take_succ_cons, List.take_zero,
      List.drop_succ_cons, List.drop_zero, ih, append, List.append_assoc, List.singleton_append]

/-- Every content of the buffer is left by some history of timed-out reads. -/
theorem exists_residue (residue : List UInt8) :
    ∃ calls port, (readPackets calls {} port).2.1.streamBuffer = residue :=
  ⟨_, residue, by rw [readPackets_residue]; rfl⟩

/-! ## Availability -/

/-- A read returns the next bytes exactly when it completes. -/
theorem readsNext_iff (t : PacketType) (pieces : List ℕ) (s : SerialController)
    (port : List UInt8) :
    ReadsNext t pieces s port ↔ t.codec.size ≤ arrived pieces port := by
  have hcompletes := didTimeout_readPacket t pieces s port
  constructor
  · intro h
    have := hcompletes.mp h.1
    exact le_min this.1 this.2
  · intro h
    have hdone := hcompletes.mpr (le_min_iff.mp h)
    refine ⟨hdone, ?_⟩
    -- what it returns is a front of the unread bytes, as long as a packet
    have hbytes := ReadResult.bytes_of_completed hdone
    rw [← readPacket_conserves t pieces s port, List.take_left']
    rw [hbytes, t.codec.length_encode]

/-- **A read succeeds whenever a packet is available, unless bytes left over are needed for it.**
With `j` bytes arriving before the timeout, the read returns the next packet exactly when the
buffer's bytes and those `j` make one up, if and only if the `j` alone do, or all of them do
not. -/
theorem readsNext_available_iff (t : PacketType) (pieces : List ℕ) (s : SerialController)
    (port : List UInt8) :
    (ReadsNext t pieces s port ↔
        t.codec.size ≤ s.streamBuffer.length + arrived pieces port) ↔
      t.codec.size ≤ arrived pieces port ∨
        s.streamBuffer.length + arrived pieces port < t.codec.size := by
  rw [readsNext_iff]
  omega

/-- A byte left by a read that timed out is not enough for a handshake packet. -/
theorem available_packet_times_out :
    ¬ ∀ (calls : List (PacketType × List ℕ)) (earlier : List UInt8) (t : PacketType)
        (pieces : List ℕ) (port : List UInt8),
      (ReadsNext t pieces (readPackets calls {} earlier).2.1 port ↔
        t.codec.size ≤
          (readPackets calls {} earlier).2.1.streamBuffer.length + arrived pieces port) := by
  intro h
  have hresidue : (readPackets [(.imu, [1])] {} [1]).2.1 = { streamBuffer := [1] } := rfl
  have hiff := h [(.imu, [1])] [1] .handshake [] []
  rw [hresidue, readsNext_iff] at hiff
  exact absurd (hiff.mpr (by decide)) (by decide)

end SerialController

end RcPlane
