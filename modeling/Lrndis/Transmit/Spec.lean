import Lrndis.Lib.Cut
import Lrndis.Transmit.Code

/-!
# What the transmitter sends

A frame is a queue of at most three transfers: the header packet, the rest of the
data, and a padding byte if the packets would otherwise all be full. On the wire
that is one message, cut into packets of which only the last one is short.
-/

namespace Lrndis.Transmit

open Mem

/-- The header packet takes as many data bytes as it has room for. -/
def firstRoom : Nat := rndisDataInSz - DataPacket.size

def NeedsPadding (size : Nat) : Prop := (DataPacket.size + size) % rndisDataInSz = 0

instance (size : Nat) : Decidable (NeedsPadding size) := by unfold NeedsPadding; infer_instance

def padding (size : Nat) : List UInt8 := if NeedsPadding size then [0] else []

def total (size : Nat) : Nat := DataPacket.size + size + (padding size).length

def header (size : Nat) : List UInt8 :=
  Mem.bytes32 remoteNdisPacketMsg ++ Mem.bytes32 (UInt32.ofNat (total size)) ++
    Mem.bytes32 (UInt32.ofNat DataPacket.size - DataPacket.offsetofDataOffset) ++
    Mem.bytes32 (UInt32.ofNat size) ++ List.replicate 28 0

def message (frame : List UInt8) : List UInt8 :=
  header frame.length ++ frame ++ padding frame.length

def packets (frame : List UInt8) : List (List UInt8) := Cut.cut rndisDataInSz (message frame)

def transfer (bytes : List UInt8) : List (List UInt8) := if bytes = [] then [] else [bytes]

def later (frame : List UInt8) : List (List UInt8) :=
  transfer (frame.drop firstRoom) ++ transfer (padding frame.length)

def firstTransfer (frame : List UInt8) : List UInt8 :=
  header frame.length ++ frame.take firstRoom

@[simp] theorem header_length (size : Nat) : (header size).length = DataPacket.size := rfl

theorem message_length (frame : List UInt8) : (message frame).length = total frame.length := by
  simp only [message, total, List.length_append, header_length]

theorem later_length (frame : List UInt8) : (later frame).length ≤ 2 := by
  unfold later transfer
  split <;> split <;> simp

theorem transfer_flatten (bytes : List UInt8) : (transfer bytes).flatten = bytes := by
  unfold transfer
  split
  · simp [*]
  · simp

theorem transfers_length (frame : List UInt8) :
    (firstTransfer frame).length + (later frame).flatten.length = total frame.length := by
  have hmin := Nat.min_le_right firstRoom frame.length
  unfold firstTransfer later total
  simp only [List.flatten_append, transfer_flatten, List.length_append, header_length,
    List.length_take, List.length_drop]
  omega

theorem padding_eq_nil (size : Nat) : padding size = [] ↔ ¬ NeedsPadding size := by
  unfold padding
  split <;> simp [*]

/-- The last packet of a message is short, so the host sees where it ends. -/
theorem message_ends_short (frame : List UInt8) : (message frame).length % rndisDataInSz ≠ 0 := by
  rw [message_length, total]
  by_cases h : NeedsPadding frame.length
  · rw [show padding frame.length = [0] from if_pos h, List.length_singleton]
    unfold NeedsPadding rndisDataInSz at *
    omega
  · rw [(padding_eq_nil _).mpr h]
    exact h

structure Described (m frame : List UInt8) : Prop where
  type : DataPacket.messageType m = 1
  offset : (DataPacket.dataOffset m).toNat + 8 = 44
  data : (DataPacket.dataLength m).toNat = frame.length
  length : (DataPacket.messageLength m).toNat = m.length
  frame : Mem.slice m 44 frame.length = frame

theorem message_described (frame : List UInt8) (h : frame.length ≤ ethMaxPacketSize) :
    Described (message frame) frame := by
  have htotal : total frame.length < 2 ^ 32 := by
    have : (padding frame.length).length ≤ 1 := by unfold padding; split <;> simp
    unfold ethMaxPacketSize ethHeaderSize rndisMtu at h
    unfold total DataPacket.size
    omega
  have hmsg : message frame = bytes32 remoteNdisPacketMsg ++
      (bytes32 (UInt32.ofNat (total frame.length)) ++
        (bytes32 (UInt32.ofNat DataPacket.size - DataPacket.offsetofDataOffset) ++
          (bytes32 (UInt32.ofNat frame.length) ++
            (List.replicate 28 0 ++ (frame ++ padding frame.length))))) := by
    simp only [message, header, List.append_assoc]
  constructor
  · rw [DataPacket.messageType, hmsg, word32At_bytes32]
    rfl
  · rw [DataPacket.dataOffset, hmsg, word32At_skip _ _ 4, word32At_skip _ _ 0, word32At_bytes32]
    rfl
  · unfold ethMaxPacketSize ethHeaderSize rndisMtu at h
    rw [DataPacket.dataLength, hmsg, word32At_skip _ _ 8, word32At_skip _ _ 4,
      word32At_skip _ _ 0, word32At_bytes32, UInt32.toNat_ofNat']
    omega
  · rw [DataPacket.messageLength, message_length, hmsg, word32At_skip _ _ 0, word32At_bytes32,
      UInt32.toNat_ofNat']
    omega
  · have h44 : (header frame.length).length = 44 := rfl
    rw [message, List.append_assoc, ← h44, slice_append_right, List.take_left' rfl]

theorem cut_transfer (bytes : List UInt8) :
    (transfer bytes).flatMap (Cut.cut rndisDataInSz) = Cut.cut rndisDataInSz bytes := by
  unfold transfer
  split
  · simp [*]
  · simp

/-- The transfers of a frame, each cut on its own, give the packets of its message. -/
theorem packets_eq (frame : List UInt8) (h : frame ≠ []) :
    packets frame =
      Cut.cut rndisDataInSz (firstTransfer frame) ++
        (later frame).flatMap (Cut.cut rndisDataInSz) := by
  have hpos : 0 < rndisDataInSz := by decide
  have hlen := List.length_pos_of_ne_nil h
  have hmsg : message frame = firstTransfer frame ++
      (frame.drop firstRoom ++ padding frame.length) := by
    unfold message firstTransfer
    simp only [List.append_assoc, List.append_cancel_left_eq]
    rw [← List.append_assoc, List.take_append_drop]
  have hfirst : (firstTransfer frame).length = DataPacket.size + min firstRoom frame.length := by
    simp [firstTransfer]
  rw [packets, hmsg, later, List.flatMap_append, cut_transfer, cut_transfer]
  unfold firstRoom at hfirst ⊢
  unfold rndisDataInSz DataPacket.size at *
  by_cases hroom : frame.length < 20
  · -- All in the header packet, and never a full one.
    have hdrop : frame.drop (64 - 44) = [] := List.drop_eq_nil_of_le (by omega)
    have hpad : padding frame.length = [] := by
      rw [padding_eq_nil]
      unfold NeedsPadding rndisDataInSz DataPacket.size
      omega
    simp [hdrop, hpad]
  · have hdvd : 64 ∣ (firstTransfer frame).length := by rw [hfirst]; omega
    rw [Cut.cut_append 64 hpos _ _ hdvd]
    congr 1
    by_cases hpad : NeedsPadding frame.length
    · unfold NeedsPadding rndisDataInSz DataPacket.size at hpad
      exact Cut.cut_append 64 hpos _ _ (by rw [List.length_drop]; omega)
    · rw [(padding_eq_nil _).mpr hpad]
      simp

end Lrndis.Transmit
