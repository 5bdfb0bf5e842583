import Lrndis.Lib.Cut
import Lrndis.Lib.Run
import Lrndis.Receive.Code

/-!
# What the reassembler means

A message is the packets up to a short one, or up to the length that its first
packet announces. No buffer and no counter: the state is the bytes collected so
far. `Refinement.lean` shows that the driver computes this.
-/

namespace Lrndis.Receive

/-- How a message ends: with its bytes, or dropped because it outgrew the buffer. -/
inductive Ending
  | overflow
  | message (m : List UInt8)
deriving DecidableEq

def Ends (m : List UInt8) (p : OutPacket) : Prop :=
  p.bytes.length ≠ rndisDataOutSz ∨ m.length = (DataPacket.messageLength m).toNat

instance (m : List UInt8) (p : OutPacket) : Decidable (Ends m p) := by
  unfold Ends; infer_instance

theorem ends_of_short (m : List UInt8) (p : OutPacket) (h : p.bytes.length < rndisDataOutSz) :
    Ends m p := Or.inl (Nat.ne_of_lt h)

def collect (acc : List UInt8) (p : OutPacket) : List UInt8 × List Ending :=
  if rndisRxBufferSize < acc.length + p.bytes.length then ([], [.overflow])
  else if Ends (acc ++ p.bytes) p then ([], [.message (acc ++ p.bytes)])
  else (acc ++ p.bytes, [])

/-! ## What a message does -/

def Named (m : List UInt8) : Prop :=
  DataPacket.size ≤ m.length ∧ DataPacket.messageType m = remoteNdisPacketMsg ∧
    (DataPacket.messageLength m).toNat = m.length

/-- The driver's test of offset and length, in wrapping arithmetic. -/
def Fits (m : List UInt8) : Prop :=
  (DataPacket.dataOffset m + DataPacket.offsetofDataOffset + DataPacket.dataLength m).toNat =
    m.length

instance (m : List UInt8) : Decidable (Named m) := by unfold Named; infer_instance
instance (m : List UInt8) : Decidable (Fits m) := by unfold Fits; infer_instance

def callOf (m : List UInt8) : RxprocCall where
  start := DataPacket.dataOffset m + DataPacket.offsetofDataOffset
  size := DataPacket.dataLength m
  message := m

def calls : Ending → List RxprocCall
  | .overflow => []
  | .message m => if Named m ∧ Fits m then [callOf m] else []

def tally (stat : UsbEthStat) : Ending → UsbEthStat
  | .overflow => { stat with rxbad := stat.rxbad + 1 }
  | .message m =>
    if Named m then
      if Fits m then { stat with rxok := stat.rxok + 1 } else { stat with rxbad := stat.rxbad + 1 }
    else stat

/-! ## Well-formed messages -/

/-- A packet message as the protocol wants it, with its data inside. -/
structure PacketMsg where
  bytes : List UInt8
  type_eq : DataPacket.messageType bytes = remoteNdisPacketMsg
  length_eq : (DataPacket.messageLength bytes).toNat = bytes.length
  size_le : DataPacket.size ≤ bytes.length
  le_size : bytes.length ≤ rndisRxBufferSize
  header_le : 36 ≤ (DataPacket.dataOffset bytes).toNat
  ends : (DataPacket.dataOffset bytes).toNat + 8 + (DataPacket.dataLength bytes).toNat =
    bytes.length
  data_le : (DataPacket.dataLength bytes).toNat ≤ ethMaxPacketSize

def PacketMsg.data (m : PacketMsg) : List UInt8 :=
  Mem.slice m.bytes ((DataPacket.dataOffset m.bytes).toNat + 8)
    (DataPacket.dataLength m.bytes).toNat

/-- What a host may append to a message that fills its last packet. -/
inductive Padding
  | nothing
  | zeroLength
  | byte (b : UInt8)

def Padding.packets : Padding → List (List UInt8)
  | nothing => []
  | zeroLength => [[]]
  | byte b => [[b]]

def wire (m : List UInt8) (pad : Padding) : List (List UInt8) :=
  if m.length % rndisDataOutSz = 0 then Cut.cut rndisDataOutSz m ++ pad.packets
  else Cut.cut rndisDataOutSz m

theorem wire_fits (m : List UInt8) (pad : Padding) :
    ∀ p ∈ wire m pad, p.length ≤ rndisDataOutSz := by
  intro p hp
  have hcut : p ∈ Cut.cut rndisDataOutSz m → p.length ≤ rndisDataOutSz :=
    Cut.length_le_of_mem_cut _ m p
  unfold wire at hp
  split at hp
  · rcases List.mem_append.mp hp with hp | hp
    · exact hcut hp
    · cases pad <;> simp [Padding.packets] at hp <;> simp [hp, rndisDataOutSz]
  · exact hcut hp

def packetsOf (ps : List (List UInt8)) (h : ∀ p ∈ ps, p.length ≤ rndisDataOutSz) :
    List OutPacket :=
  ps.pmap OutPacket.mk h

def PacketMsg.packets (m : PacketMsg) (pad : Padding) : List OutPacket :=
  packetsOf (wire m.bytes pad) (wire_fits m.bytes pad)

end Lrndis.Receive
