import Lrndis.Protocol

/-!
# The control endpoint of the class driver

`usbd_rndis_setup` and `usbd_rndis_ep0_recv` of `usbd_rndis_core.c`, with all they call.
The host's message and the driver's reply share `encapsulated_buffer`.
-/

namespace Lrndis.Control

open Mem

/-! ## Constants of `rndis_protocol.h` and `ndis.h` -/

def remoteNdisInitializeMsg : UInt32 := 0x00000002
def remoteNdisQueryMsg : UInt32 := 0x00000004
def remoteNdisSetMsg : UInt32 := 0x00000005
def remoteNdisResetMsg : UInt32 := 0x00000006
def remoteNdisKeepaliveMsg : UInt32 := 0x00000008
def remoteNdisInitializeCmplt : UInt32 := 0x80000002
def remoteNdisQueryCmplt : UInt32 := 0x80000004
def remoteNdisSetCmplt : UInt32 := 0x80000005
def remoteNdisResetCmplt : UInt32 := 0x80000006
def remoteNdisKeepaliveCmplt : UInt32 := 0x80000008

def rndisStatusSuccess : UInt32 := 0x00000000
def rndisStatusFailure : UInt32 := 0xC0000001
def rndisStatusNotSupported : UInt32 := 0xC00000BB

def rndisMajorVersion : UInt32 := 1
def rndisMinorVersion : UInt32 := 0
def rndisDfConnectionless : UInt32 := 0x00000001
def rndisMedium8023 : UInt32 := 0x00000000
def ndisMedium8023 : UInt32 := 0x00000000
def ndisMediaStateConnected : UInt32 := 0x00000000
def rndisLinkSpeed : UInt32 := 12000000

def oidGenSupportedList : UInt32 := 0x00010101
def oidGenHardwareStatus : UInt32 := 0x00010102
def oidGenMediaSupported : UInt32 := 0x00010103
def oidGenMediaInUse : UInt32 := 0x00010104
def oidGenMaximumFrameSize : UInt32 := 0x00010106
def oidGenLinkSpeed : UInt32 := 0x00010107
def oidGenTransmitBlockSize : UInt32 := 0x0001010A
def oidGenReceiveBlockSize : UInt32 := 0x0001010B
def oidGenVendorId : UInt32 := 0x0001010C
def oidGenVendorDescription : UInt32 := 0x0001010D
def oidGenCurrentPacketFilter : UInt32 := 0x0001010E
def oidGenCurrentLookahead : UInt32 := 0x0001010F
def oidGenMaximumTotalSize : UInt32 := 0x00010111
def oidGenProtocolOptions : UInt32 := 0x00010112
def oidGenMacOptions : UInt32 := 0x00010113
def oidGenMediaConnectStatus : UInt32 := 0x00010114
def oidGenMaximumSendPackets : UInt32 := 0x00010115
def oidGenVendorDriverVersion : UInt32 := 0x00010116
def oidGenRndisConfigParameter : UInt32 := 0x0001021B
def oidGenPhysicalMedium : UInt32 := 0x00010202
def oidGenXmitOk : UInt32 := 0x00020101
def oidGenRcvOk : UInt32 := 0x00020102
def oidGenXmitError : UInt32 := 0x00020103
def oidGenRcvError : UInt32 := 0x00020104
def oidGenRcvNoBuffer : UInt32 := 0x00020105
def oid8023PermanentAddress : UInt32 := 0x01010101
def oid8023CurrentAddress : UInt32 := 0x01010102
def oid8023MulticastList : UInt32 := 0x01010103
def oid8023MaximumListSize : UInt32 := 0x01010104
def oid8023MacOptions : UInt32 := 0x01010105
def oid8023RcvErrorAlignment : UInt32 := 0x01020101
def oid8023XmitOneCollision : UInt32 := 0x01020102
def oid8023XmitMoreCollisions : UInt32 := 0x01020103

def oidSupportedList : List UInt32 :=
  [oidGenSupportedList, oidGenHardwareStatus, oidGenMediaSupported, oidGenMediaInUse,
    oidGenMaximumFrameSize, oidGenLinkSpeed, oidGenTransmitBlockSize, oidGenReceiveBlockSize,
    oidGenVendorId, oidGenVendorDescription, oidGenVendorDriverVersion,
    oidGenCurrentPacketFilter, oidGenMaximumTotalSize, oidGenProtocolOptions, oidGenMacOptions,
    oidGenMediaConnectStatus, oidGenMaximumSendPackets, oid8023PermanentAddress,
    oid8023CurrentAddress, oid8023MulticastList, oid8023MaximumListSize, oid8023MacOptions]

def oidListLength : Nat := oidSupportedList.length

def encBufSize : Nat := oidListLength * 4 + 32

/-- `station_hwaddr` and `permanent_hwaddr`, both `RNDIS_HWADDR`. -/
def rndisHwaddr : List UInt8 := [0x20, 0x89, 0x84, 0x6A, 0x96, 0xAB]

def rndisVendor : List UInt8 := [0x66, 0x65, 0x74, 0x69, 0x73, 0x6F, 0x76, 0]

/-! ## Messages -/

namespace GenericMsg

def messageType (m : List UInt8) : UInt32 := word32At m 0
def messageLength (m : List UInt8) : UInt32 := word32At m 4

end GenericMsg

namespace QueryMsg

def oid (m : List UInt8) : UInt32 := word32At m 12

end QueryMsg

namespace SetMsg

def oid (m : List UInt8) : UInt32 := word32At m 12
def informationBufferLength (m : List UInt8) : UInt32 := word32At m 16
def informationBufferOffset (m : List UInt8) : UInt32 := word32At m 20

/-- `sizeof`, up to the end of `DeviceVcHandle`. -/
def size : Nat := 28

end SetMsg

def initializeCmpltSize : Nat := 52
def queryCmpltSize : Nat := 24
def setCmpltSize : Nat := 16
def resetCmpltSize : Nat := 16
def keepaliveCmpltSize : Nat := 16

/-! ## State -/

inductive RndisState
  | uninitialized
  | initialized
  | dataInitialized
deriving DecidableEq, Repr

structure Ctl where
  encapsulatedBuffer : Buffer encBufSize
  oidPacketFilter : UInt32
  rndisState : RndisState
deriving DecidableEq

def Ctl.boot : Ctl where
  encapsulatedBuffer := Buffer.zero _
  oidPacketFilter := 0
  rndisState := .uninitialized

inductive Request
  /-- `USBD_CtlSendData(pdev, encapsulated_buffer, len)` -/
  | ctlSendData (len : UInt16)
  /-- `USBD_CtlPrepareRx(pdev, encapsulated_buffer, len)` -/
  | ctlPrepareRx (len : UInt16)
  /-- `DCD_EP_Tx` on the notification endpoint -/
  | notify (bytes : List UInt8)
deriving DecidableEq, Repr

def notification : Request := .notify [1, 0, 0, 0, 0, 0, 0, 0]

/-! ## `usbd_rndis_setup` -/

/-- `USB_SETUP_REQ`, as far as it is looked at. -/
structure SetupReq where
  bmRequest : UInt8
  wLength : UInt16
deriving DecidableEq, Repr

def usbReqTypeMask : UInt8 := 0x60
def usbReqTypeClass : UInt8 := 0x20

def usbdRndisSetup (s : Ctl) (req : SetupReq) : List Request :=
  if req.bmRequest &&& usbReqTypeMask = usbReqTypeClass then
    if req.wLength ≠ 0 then
      if req.bmRequest &&& 0x80 ≠ 0 then
        [.ctlSendData (GenericMsg.messageLength s.encapsulatedBuffer.bytes).toUInt16]
      else [.ctlPrepareRx req.wLength]
    else []
  else []

/-! ## Queries -/

inductive Answer
  | cmplt32 (status data : UInt32)
  | cmplt (status : UInt32) (data : List UInt8)
deriving DecidableEq, Repr

def queryCmpltHeader (b : Buffer encBufSize) (status : UInt32) (size : Nat) :
    Buffer encBufSize :=
  let c := b.setWord32 0 remoteNdisQueryCmplt
  let c := c.setWord32 4 (UInt32.ofNat queryCmpltSize + UInt32.ofNat size)
  let c := c.setWord32 16 (UInt32.ofNat size)
  let c := c.setWord32 20 16
  c.setWord32 12 status

def rndisQueryCmplt32 (b : Buffer encBufSize) (status data : UInt32) : Buffer encBufSize :=
  (queryCmpltHeader b status 4).setWord32 queryCmpltSize data

def rndisQueryCmplt (b : Buffer encBufSize) (status : UInt32) (data : List UInt8) :
    Buffer encBufSize :=
  (queryCmpltHeader b status data.length).write queryCmpltSize data

/-- The cases of the switch in `rndis_query`, in its order. -/
def queryTable (s : Ctl) (stat : UsbEthStat) : List (UInt32 × Answer) :=
  [(oidGenSupportedList, .cmplt rndisStatusSuccess (oidSupportedList.flatMap bytes32)),
    (oidGenVendorDriverVersion, .cmplt32 rndisStatusSuccess 0x00001000),
    (oid8023CurrentAddress, .cmplt rndisStatusSuccess rndisHwaddr),
    (oid8023PermanentAddress, .cmplt rndisStatusSuccess rndisHwaddr),
    (oidGenMediaSupported, .cmplt32 rndisStatusSuccess ndisMedium8023),
    (oidGenMediaInUse, .cmplt32 rndisStatusSuccess ndisMedium8023),
    (oidGenPhysicalMedium, .cmplt32 rndisStatusSuccess ndisMedium8023),
    (oidGenHardwareStatus, .cmplt32 rndisStatusSuccess 0),
    (oidGenLinkSpeed, .cmplt32 rndisStatusSuccess (rndisLinkSpeed / 100)),
    (oidGenVendorId, .cmplt32 rndisStatusSuccess 0x00FFFFFF),
    (oidGenVendorDescription, .cmplt rndisStatusSuccess rndisVendor),
    (oidGenCurrentPacketFilter, .cmplt32 rndisStatusSuccess s.oidPacketFilter),
    (oidGenMaximumFrameSize,
      .cmplt32 rndisStatusSuccess (UInt32.ofNat (ethMaxPacketSize - ethHeaderSize))),
    (oidGenMaximumTotalSize, .cmplt32 rndisStatusSuccess (UInt32.ofNat ethMaxPacketSize)),
    (oidGenTransmitBlockSize, .cmplt32 rndisStatusSuccess (UInt32.ofNat ethMaxPacketSize)),
    (oidGenReceiveBlockSize, .cmplt32 rndisStatusSuccess (UInt32.ofNat ethMaxPacketSize)),
    (oidGenMediaConnectStatus, .cmplt32 rndisStatusSuccess ndisMediaStateConnected),
    (oidGenRndisConfigParameter, .cmplt32 rndisStatusSuccess 0),
    (oid8023MaximumListSize, .cmplt32 rndisStatusSuccess 1),
    (oid8023MulticastList, .cmplt32 rndisStatusNotSupported 0),
    (oid8023MacOptions, .cmplt32 rndisStatusNotSupported 0),
    (oidGenMacOptions, .cmplt32 rndisStatusSuccess 0),
    (oid8023RcvErrorAlignment, .cmplt32 rndisStatusSuccess 0),
    (oid8023XmitOneCollision, .cmplt32 rndisStatusSuccess 0),
    (oid8023XmitMoreCollisions, .cmplt32 rndisStatusSuccess 0),
    (oidGenXmitOk, .cmplt32 rndisStatusSuccess stat.txok),
    (oidGenRcvOk, .cmplt32 rndisStatusSuccess stat.rxok),
    (oidGenRcvError, .cmplt32 rndisStatusSuccess stat.rxbad),
    (oidGenXmitError, .cmplt32 rndisStatusSuccess stat.txbad),
    (oidGenRcvNoBuffer, .cmplt32 rndisStatusSuccess 0)]

def queryAnswer (s : Ctl) (stat : UsbEthStat) (oid : UInt32) : Answer :=
  ((queryTable s stat).lookup oid).getD (.cmplt rndisStatusFailure [])

def rndisQuery (s : Ctl) (stat : UsbEthStat) : Ctl × List Request :=
  let b := s.encapsulatedBuffer
  let b' :=
    match queryAnswer s stat (QueryMsg.oid b.bytes) with
    | .cmplt32 status data => rndisQueryCmplt32 b status data
    | .cmplt status data => rndisQueryCmplt b status data
  ({ s with encapsulatedBuffer := b' }, [notification])

/-! ## SET -/

/-- The word at an address given by its distance from `encapsulated_buffer`, which may be
outside of it: `around` is what the memory there holds. -/
def wordAround (b : Buffer encBufSize) (around : UInt32 → UInt32) (i : UInt32) : UInt32 :=
  if i.toNat + 4 ≤ encBufSize then b.word32 i.toNat else around i

/-- `rndis_handle_set_msg`, where every load has a result. The loads that can fail are those of
`rndisHandleSetMsgChecked`, which also has the ones of `OID_GEN_RNDIS_CONFIG_PARAMETER`: they go
to a function that ignores them. -/
def rndisHandleSetMsg (s : Ctl) (around : UInt32 → UInt32) : Ctl × List Request :=
  let oid := SetMsg.oid s.encapsulatedBuffer.bytes
  let c := s.encapsulatedBuffer.setWord32 0 remoteNdisSetCmplt
  let c := c.setWord32 4 (UInt32.ofNat setCmpltSize)
  let c := c.setWord32 12 rndisStatusSuccess
  let s := { s with encapsulatedBuffer := c }
  let s :=
    if oid = oidGenRndisConfigParameter then s
    else if oid = oidGenCurrentPacketFilter then
      let filter := wordAround c around (SetMsg.informationBufferOffset c.bytes + 8)
      { s with
        oidPacketFilter := filter
        rndisState := if filter ≠ 0 then .dataInitialized else .initialized }
    else if oid = oidGenCurrentLookahead then s
    else if oid = oidGenProtocolOptions then s
    else if oid = oid8023MulticastList then s
    else { s with encapsulatedBuffer := c.setWord32 12 rndisStatusFailure }
  (s, [notification])

/-! ## `usbd_rndis_ep0_recv` -/

def initializeCmplt (b : Buffer encBufSize) : Buffer encBufSize :=
  let m := b.setWord32 0 remoteNdisInitializeCmplt
  let m := m.setWord32 4 (UInt32.ofNat initializeCmpltSize)
  let m := m.setWord32 16 rndisMajorVersion
  let m := m.setWord32 20 rndisMinorVersion
  let m := m.setWord32 12 rndisStatusSuccess
  let m := m.setWord32 24 rndisDfConnectionless
  let m := m.setWord32 28 rndisMedium8023
  let m := m.setWord32 32 1
  let m := m.setWord32 36 (UInt32.ofNat rndisRxBufferSize)
  let m := m.setWord32 40 0
  let m := m.setWord32 44 0
  m.setWord32 48 0

def resetCmplt (b : Buffer encBufSize) : Buffer encBufSize :=
  let m := b.setWord32 0 remoteNdisResetCmplt
  let m := m.setWord32 4 (UInt32.ofNat resetCmpltSize)
  let m := m.setWord32 8 rndisStatusSuccess
  m.setWord32 12 1

def keepaliveCmplt (b : Buffer encBufSize) : Buffer encBufSize :=
  let m := b.setWord32 0 remoteNdisKeepaliveCmplt
  let m := m.setWord32 4 (UInt32.ofNat keepaliveCmpltSize)
  m.setWord32 12 rndisStatusSuccess

def usbdRndisEp0Recv (s : Ctl) (stat : UsbEthStat) (around : UInt32 → UInt32) :
    Ctl × List Request :=
  let messageType := GenericMsg.messageType s.encapsulatedBuffer.bytes
  if messageType = remoteNdisInitializeMsg then
    ({ s with
        encapsulatedBuffer := initializeCmplt s.encapsulatedBuffer, rndisState := .initialized },
      [notification])
  else if messageType = remoteNdisQueryMsg then rndisQuery s stat
  else if messageType = remoteNdisSetMsg then rndisHandleSetMsg s around
  else if messageType = remoteNdisResetMsg then
    ({ s with
        encapsulatedBuffer := resetCmplt s.encapsulatedBuffer, rndisState := .uninitialized },
      [notification])
  else if messageType = remoteNdisKeepaliveMsg then
    ({ s with encapsulatedBuffer := keepaliveCmplt s.encapsulatedBuffer }, [notification])
  else (s, [])

end Lrndis.Control
