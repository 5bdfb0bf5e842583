import Lrndis.Control.Spec

/-!
# Requests and completions

The completion of a request is written over it. Its fields overlap fields of the request
that are still needed, so the order of the writes matters.
-/

namespace Lrndis.Control

open Mem

namespace Cmplt

def messageType (c : Buffer encBufSize) : UInt32 := c.word32 0
def messageLength (c : Buffer encBufSize) : UInt32 := c.word32 4
def requestId (c : Buffer encBufSize) : UInt32 := c.word32 8

def informationBufferLength (c : Buffer encBufSize) : UInt32 := c.word32 16
def informationBufferOffset (c : Buffer encBufSize) : UInt32 := c.word32 20

end Cmplt

def cmpltSize (messageType : UInt32) : Nat :=
  if messageType = remoteNdisInitializeMsg then initializeCmpltSize
  else if messageType = remoteNdisQueryMsg then queryCmpltSize
  else if messageType = remoteNdisSetMsg then setCmpltSize
  else if messageType = remoteNdisResetMsg then resetCmpltSize
  else keepaliveCmpltSize

/-- `c` is a completion of the request `m`: of its type, with its id, with the length that
its fixed part and its information buffer have, and within the buffer. -/
structure Completes (m c : Buffer encBufSize) : Prop where
  type : Cmplt.messageType c = GenericMsg.messageType m.bytes ||| 0x80000000
  requestId : GenericMsg.messageType m.bytes ≠ remoteNdisResetMsg →
    Cmplt.requestId c = m.word32 8
  room : (Cmplt.messageLength c).toNat ≤ encBufSize
  length : (Cmplt.messageLength c).toNat = cmpltSize (GenericMsg.messageType m.bytes) +
    if GenericMsg.messageType m.bytes = remoteNdisQueryMsg then
      (Cmplt.informationBufferLength c).toNat
    else 0
  information : GenericMsg.messageType m.bytes = remoteNdisQueryMsg →
    8 + (Cmplt.informationBufferOffset c).toNat = queryCmpltSize

/-! ## Each completion -/

theorem initializeCmplt_type (b : Buffer encBufSize) :
    (initializeCmplt b).word32 0 = remoteNdisInitializeCmplt ∧
      (initializeCmplt b).word32 8 = b.word32 8 := by
  unfold initializeCmplt
  simp (disch := omega) only [Buffer.word32_setWord32_other]
  exact ⟨Buffer.word32_setWord32 _ _ _ (by decide), trivial⟩

theorem keepaliveCmplt_type (b : Buffer encBufSize) :
    (keepaliveCmplt b).word32 0 = remoteNdisKeepaliveCmplt ∧
      (keepaliveCmplt b).word32 8 = b.word32 8 := by
  unfold keepaliveCmplt
  simp (disch := omega) only [Buffer.word32_setWord32_other]
  exact ⟨Buffer.word32_setWord32 _ _ _ (by decide), trivial⟩

theorem resetCmplt_type (b : Buffer encBufSize) :
    (resetCmplt b).word32 0 = remoteNdisResetCmplt := by
  unfold resetCmplt
  simp (disch := omega) only [Buffer.word32_setWord32_other]
  exact Buffer.word32_setWord32 _ _ _ (by decide)

theorem rndisHandleSetMsg_type (s : Ctl) (around : UInt32 → UInt32) :
    (rndisHandleSetMsg s around).1.encapsulatedBuffer.word32 0 = remoteNdisSetCmplt ∧
      (rndisHandleSetMsg s around).1.encapsulatedBuffer.word32 8 =
        s.encapsulatedBuffer.word32 8 := by
  rw [rndisHandleSetMsg_below s around 0 (by decide), rndisHandleSetMsg_below s around 8 (by decide)]
  simp (disch := omega) only [Buffer.word32_setWord32_other]
  exact ⟨Buffer.word32_setWord32 _ _ _ (by decide), trivial⟩

theorem queryCmpltHeader_type (b : Buffer encBufSize) (status : UInt32) (size : Nat) :
    (queryCmpltHeader b status size).word32 0 = remoteNdisQueryCmplt ∧
      (queryCmpltHeader b status size).word32 8 = b.word32 8 ∧
      (queryCmpltHeader b status size).word32 16 = UInt32.ofNat size ∧
      (queryCmpltHeader b status size).word32 20 = 16 := by
  unfold queryCmpltHeader
  simp (disch := omega) only [Buffer.word32_setWord32_other]
  exact ⟨Buffer.word32_setWord32 _ _ _ (by decide), trivial,
    Buffer.word32_setWord32 _ _ _ (by decide), Buffer.word32_setWord32 _ _ _ (by decide)⟩

theorem rndisQuery_header (s : Ctl) (stat : UsbEthStat) :
    let c := (rndisQuery s stat).1.encapsulatedBuffer
    c.word32 0 = remoteNdisQueryCmplt ∧ c.word32 8 = s.encapsulatedBuffer.word32 8 ∧
      c.word32 16 = UInt32.ofNat (infoLength (QueryMsg.oid s.encapsulatedBuffer.bytes)) ∧
      c.word32 20 = 16 := by
  intro c
  have hsize := queryAnswer_size s stat (QueryMsg.oid s.encapsulatedBuffer.bytes)
  rw [← hsize]
  unfold c rndisQuery
  simp only
  cases queryAnswer s stat (QueryMsg.oid s.encapsulatedBuffer.bytes) with
  | cmplt32 status data =>
    unfold rndisQueryCmplt32 queryCmpltSize
    simp (disch := omega) only [Buffer.word32_setWord32_other]
    exact queryCmpltHeader_type _ _ _
  | cmplt status data =>
    unfold rndisQueryCmplt queryCmpltSize
    simp (disch := omega) only [Buffer.word32_write_outside]
    exact queryCmpltHeader_type _ _ _

/-! ## `usbd_rndis_ep0_recv` -/

theorem usbdRndisEp0Recv_notifies (s : Ctl) (stat : UsbEthStat) (around : UInt32 → UInt32)
    (h : Handled s.encapsulatedBuffer.bytes) :
    (usbdRndisEp0Recv s stat around).2 = [notification] := by
  unfold Handled at h
  simp only [List.mem_cons, List.not_mem_nil, or_false] at h
  unfold usbdRndisEp0Recv
  simp only
  rcases h with h | h | h | h | h
  all_goals rw [h]; rfl

theorem usbdRndisEp0Recv_type (s : Ctl) (stat : UsbEthStat) (around : UInt32 → UInt32)
    (h : Handled s.encapsulatedBuffer.bytes) :
    let m := s.encapsulatedBuffer
    let c := (usbdRndisEp0Recv s stat around).1.encapsulatedBuffer
    c.word32 0 = GenericMsg.messageType m.bytes ||| 0x80000000 ∧
      (GenericMsg.messageType m.bytes ≠ remoteNdisResetMsg → c.word32 8 = m.word32 8) := by
  unfold Handled at h
  simp only [List.mem_cons, List.not_mem_nil, or_false] at h
  unfold usbdRndisEp0Recv
  simp only
  rcases h with h | h | h | h | h
  · rw [h]
    obtain ⟨htype, hid⟩ := initializeCmplt_type s.encapsulatedBuffer
    exact ⟨htype, fun _ => hid⟩
  · rw [h]
    obtain ⟨htype, hid, -⟩ := rndisQuery_header s stat
    exact ⟨htype, fun _ => hid⟩
  · rw [h]
    obtain ⟨htype, hid⟩ := rndisHandleSetMsg_type s around
    exact ⟨htype, fun _ => hid⟩
  · rw [h]
    exact ⟨resetCmplt_type s.encapsulatedBuffer, fun hno => absurd rfl hno⟩
  · rw [h]
    obtain ⟨htype, hid⟩ := keepaliveCmplt_type s.encapsulatedBuffer
    exact ⟨htype, fun _ => hid⟩

theorem replyLength_eq (m : List UInt8) :
    replyLength m = cmpltSize (GenericMsg.messageType m) +
      if GenericMsg.messageType m = remoteNdisQueryMsg then infoLength (QueryMsg.oid m) else 0 := by
  unfold replyLength cmpltSize
  by_cases hinit : GenericMsg.messageType m = remoteNdisInitializeMsg
  · rw [if_pos hinit, if_pos hinit, hinit]
    rfl
  rw [if_neg hinit, if_neg hinit]
  by_cases hquery : GenericMsg.messageType m = remoteNdisQueryMsg
  · rw [if_pos hquery, if_pos hquery, if_pos hquery]
  · rw [if_neg hquery, if_neg hquery, if_neg hquery, Nat.add_zero]
    split
    · rfl
    · split <;> rfl

theorem infoLength_toNat (oid : UInt32) : (UInt32.ofNat (infoLength oid)).toNat = infoLength oid := by
  have hle := infoLength_le oid
  have hlist : oidListLength = 22 := rfl
  rw [UInt32.toNat_ofNat']
  omega

theorem usbdRndisEp0Recv_query (s : Ctl) (stat : UsbEthStat) (around : UInt32 → UInt32)
    (h : GenericMsg.messageType s.encapsulatedBuffer.bytes = remoteNdisQueryMsg) :
    usbdRndisEp0Recv s stat around = rndisQuery s stat := by
  unfold usbdRndisEp0Recv
  simp only
  rw [h]
  rfl

theorem usbdRndisEp0Recv_completes (s : Ctl) (stat : UsbEthStat) (around : UInt32 → UInt32)
    (h : Handled s.encapsulatedBuffer.bytes) :
    Completes s.encapsulatedBuffer (usbdRndisEp0Recv s stat around).1.encapsulatedBuffer := by
  obtain ⟨htype, hid⟩ := usbdRndisEp0Recv_type s stat around h
  have hle := replyLength_le s.encapsulatedBuffer.bytes
  have h120 : encBufSize = 120 := rfl
  have hlength : (Cmplt.messageLength
      (usbdRndisEp0Recv s stat around).1.encapsulatedBuffer).toNat =
        replyLength s.encapsulatedBuffer.bytes := by
    unfold Cmplt.messageLength
    rw [usbdRndisEp0Recv_length s stat around h, UInt32.toNat_ofNat']
    omega
  refine ⟨htype, hid, by omega, ?_, ?_⟩
  · rw [hlength, replyLength_eq]
    split
    · rename_i hquery
      unfold Cmplt.informationBufferLength
      rw [usbdRndisEp0Recv_query s stat around hquery, (rndisQuery_header s stat).2.2.1,
        infoLength_toNat]
    · rfl
  · intro hquery
    unfold Cmplt.informationBufferOffset
    rw [usbdRndisEp0Recv_query s stat around hquery, (rndisQuery_header s stat).2.2.2]
    rfl

theorem usbdRndisEp0Recv_ignores (s : Ctl) (stat : UsbEthStat) (around : UInt32 → UInt32)
    (h : ¬ Handled s.encapsulatedBuffer.bytes) :
    (usbdRndisEp0Recv s stat around).1.encapsulatedBuffer = s.encapsulatedBuffer ∧
      (usbdRndisEp0Recv s stat around).2 = [] := by
  rw [usbdRndisEp0Recv_other s stat around h]
  exact ⟨rfl, rfl⟩

end Lrndis.Control
