import Lrndis.Protocol

/-!
# The IN path of the class driver

`usbd_rndis_data_in`, `rndis_can_send` and `rndis_send` of `usbd_rndis_core.c`. The
driver never copies a frame: it keeps a pointer into the caller's memory `mem`.
-/

namespace Lrndis.Transmit

inductive TxState
  | ready
  | needSending
  | sendingHdr
  | sendingData
  | sendingPadding
deriving DecidableEq, Repr

structure Tx where
  ptr : Nat
  size : Nat
  state : TxState
  needPadding : Bool
  first : Mem.Buffer rndisDataInSz
deriving DecidableEq

def Tx.boot : Tx where
  ptr := 0
  size := 0
  state := .ready
  needPadding := false
  first := Mem.Buffer.zero _

/-- Where the bytes of a transfer are: in `first`, at an address of the caller, or in
the literal of the padding byte. -/
inductive Place
  | first
  | caller (a : Nat)
  | zero
deriving DecidableEq

/-- A call `DCD_EP_Tx(pdev, RNDIS_DATA_IN_EP, place, len)`. -/
structure EpTx where
  place : Place
  len : Nat
deriving DecidableEq

/-- The byte that the controller finds at `i` of a transfer, if it reads it now. -/
def Place.byte (mem : Nat → UInt8) (first : Mem.Buffer rndisDataInSz) (i : Nat) : Place → UInt8
  | .first => first.byte i
  | .caller a => mem (a + i)
  | .zero => 0

def EpTx.bytes (mem : Nat → UInt8) (first : Mem.Buffer rndisDataInSz) (t : EpTx) : List UInt8 :=
  (List.range t.len).map fun i => t.place.byte mem first i

def rndisCanSend (s : Tx) : Bool := s.state = .ready

def fillFirst (first : Mem.Buffer rndisDataInSz) (size : Nat) (needPadding : Bool)
    (data : List UInt8) : Mem.Buffer rndisDataInSz :=
  let messageLength := UInt32.ofNat DataPacket.size + UInt32.ofNat size
  let hdr := (first.write 0 (List.replicate DataPacket.size 0)).setWord32 0 remoteNdisPacketMsg
  let hdr := hdr.setWord32 4 messageLength
  let hdr := hdr.setWord32 8 (UInt32.ofNat DataPacket.size - DataPacket.offsetofDataOffset)
  let hdr := hdr.setWord32 12 (UInt32.ofNat size)
  let hdr := if needPadding then hdr.setWord32 4 (messageLength + 1) else hdr
  hdr.write DataPacket.size data

def usbdRndisDataIn (mem : Nat → UInt8) (s : Tx) (epnum : UInt8) : Tx × Option EpTx :=
  if epnum &&& 0x0F = rndisDataInEp &&& 0x0F then
    match s.state with
    | .needSending =>
      let messageLength := UInt32.ofNat DataPacket.size + UInt32.ofNat s.size
      let needPadding := decide (messageLength &&& (UInt32.ofNat rndisDataInSz - 1) = 0)
      let n := min (rndisDataInSz - DataPacket.size) s.size
      let first := fillFirst s.first s.size needPadding (Mem.load mem s.ptr n)
      ({ ptr := s.ptr + n, size := s.size - n, state := .sendingHdr, needPadding, first },
        some { place := .first, len := DataPacket.size + n })
    | .sendingHdr =>
      if s.size > 0 then
        ({ s with state := .sendingData }, some { place := .caller s.ptr, len := s.size })
      else if s.needPadding then
        ({ s with state := .sendingPadding }, some { place := .zero, len := 1 })
      else ({ s with state := .ready }, none)
    | .sendingData =>
      if s.needPadding then
        ({ s with state := .sendingPadding }, some { place := .zero, len := 1 })
      else ({ s with state := .ready }, none)
    | .sendingPadding => ({ s with state := .ready }, none)
    | .ready => (s, none)
  else (s, none)

def accepts (s : Tx) (size : Int) : Bool :=
  ¬ (size ≤ 0 ∨ size > ethMaxPacketSize ∨ s.state ≠ .ready)

/-- The part of `rndis_send` that runs with interrupts disabled. -/
def start (mem : Nat → UInt8) (s : Tx) (data : Nat) (size : Int) : Tx × Option EpTx :=
  usbdRndisDataIn mem { s with ptr := data, size := size.toNat, state := .needSending }
    rndisDataInEp

def rndisSend (mem : Nat → UInt8) (s : Tx) (data : Nat) (size : Int) :
    Bool × Tx × Option EpTx :=
  if accepts s size then (true, start mem s data size) else (false, s, none)

end Lrndis.Transmit
