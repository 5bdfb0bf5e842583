import Lrndis.Lib.Buffer

/-!
# Constants and layouts shared by the RNDIS class driver

From `usbd_conf.h`, `usbd_rndis_core.h` and `rndis_protocol.h`. A structure of the
protocol is a run of little-endian words, so it is modelled by the offsets of its
fields in the bytes.
-/

namespace Lrndis

/-! ## Endpoints -/

def rndisDataInEp : UInt8 := 0x82
def rndisDataOutEp : UInt8 := 0x03

def rndisDataInSz : Nat := 64
def rndisDataOutSz : Nat := 64

/-! ## Sizes -/

def rndisMtu : Nat := 1500
def ethHeaderSize : Nat := 14
def ethMaxPacketSize : Nat := ethHeaderSize + rndisMtu

/-! ## `rndis_data_packet_t` -/

namespace DataPacket

def size : Nat := 44

def messageType (m : List UInt8) : UInt32 := Mem.word32At m 0
def messageLength (m : List UInt8) : UInt32 := Mem.word32At m 4
def dataOffset (m : List UInt8) : UInt32 := Mem.word32At m 8
def dataLength (m : List UInt8) : UInt32 := Mem.word32At m 12

def offsetofDataOffset : UInt32 := 8

end DataPacket

def rndisRxBufferSize : Nat := ethMaxPacketSize + DataPacket.size

def remoteNdisPacketMsg : UInt32 := 0x00000001

structure UsbEthStat where
  txok : UInt32 := 0
  rxok : UInt32 := 0
  txbad : UInt32 := 0
  rxbad : UInt32 := 0
deriving DecidableEq, Repr

end Lrndis
