import Lrndis.Protocol

/-!
# The OUT path of the class driver

`usbd_rndis_data_out` and `handle_packet` of `usbd_rndis_core.c`. The driver only
adds, compares and stores its `int` counters together with unsigned values, so
they are kept as 32-bit words and wrap as in C.
-/

namespace Lrndis.Receive

/-- One packet of the bulk OUT endpoint: `xfer_count` bytes of `usb_rx_buffer`. -/
structure OutPacket where
  bytes : List UInt8
  fits : bytes.length ≤ rndisDataOutSz
deriving DecidableEq

def OutPacket.xferCount (p : OutPacket) : UInt32 := UInt32.ofNat p.bytes.length

/-- A call `rndis_rxproc(&rndis_rx_buffer[start], size)`. `message` is what
`rndis_rx_buffer` holds of the message at that moment: its received bytes. -/
structure RxprocCall where
  start : UInt32
  size : UInt32
  message : List UInt8
deriving DecidableEq

/-- The bytes that the callback is given, as far as they were received. -/
def RxprocCall.data (c : RxprocCall) : List UInt8 :=
  Mem.slice c.message c.start.toNat c.size.toNat

structure Rx where
  rndisRxBuffer : Mem.Buffer rndisRxBufferSize
  rndisReceived : UInt32
  rndisMessageLength : UInt32
  usbEthStat : UsbEthStat
  rndisRxproc : Bool
deriving DecidableEq

/-- The state at boot, once `init_periph` has installed `on_packet`. -/
def Rx.boot : Rx where
  rndisRxBuffer := Mem.Buffer.zero _
  rndisReceived := 0
  rndisMessageLength := 0
  usbEthStat := {}
  rndisRxproc := true

def handlePacket (s : Rx) (size : UInt32) : Rx × List RxprocCall :=
  let p := s.rndisRxBuffer.bytes
  if size < UInt32.ofNat DataPacket.size then (s, [])
  else if DataPacket.messageType p ≠ remoteNdisPacketMsg ∨ DataPacket.messageLength p ≠ size then
    (s, [])
  else if DataPacket.dataOffset p + DataPacket.offsetofDataOffset + DataPacket.dataLength p ≠ size
  then
    ({ s with usbEthStat.rxbad := s.usbEthStat.rxbad + 1 }, [])
  else
    ({ s with usbEthStat.rxok := s.usbEthStat.rxok + 1 },
      if s.rndisRxproc then
        [{ start := DataPacket.dataOffset p + DataPacket.offsetofDataOffset
           size := DataPacket.dataLength p
           message := p.take size.toNat }]
      else [])

/-- Data received on the OUT endpoint. The second overflow test of the source
repeats the first, so its `else` is never taken. -/
def usbdRndisDataOut (s : Rx) (epnum : UInt8) (p : OutPacket) : Rx × List RxprocCall :=
  if epnum = rndisDataOutEp then
    if s.rndisReceived + p.xferCount > UInt32.ofNat rndisRxBufferSize then
      ({ s with usbEthStat.rxbad := s.usbEthStat.rxbad + 1, rndisReceived := 0 }, [])
    else if s.rndisReceived + p.xferCount ≤ UInt32.ofNat rndisRxBufferSize then
      let buffer := s.rndisRxBuffer.write s.rndisReceived.toNat p.bytes
      let messageLength :=
        if s.rndisReceived = 0 then DataPacket.messageLength buffer.bytes
        else s.rndisMessageLength
      let received := s.rndisReceived + p.xferCount
      let s := { s with
        rndisRxBuffer := buffer, rndisMessageLength := messageLength, rndisReceived := received }
      if p.xferCount ≠ UInt32.ofNat rndisDataOutSz ∨ received = messageLength then
        let r := handlePacket s received
        ({ r.1 with rndisReceived := 0 }, r.2)
      else (s, [])
    else ({ s with rndisReceived := 0, usbEthStat.rxbad := s.usbEthStat.rxbad + 1 }, [])
  else (s, [])

def step (s : Rx) (p : OutPacket) : Rx × List RxprocCall := usbdRndisDataOut s rndisDataOutEp p

end Lrndis.Receive
