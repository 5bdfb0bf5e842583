import Lrndis.Control.Code

/-!
# What the driver answers

How long the answer to a control message is. It depends on the message only.
-/

namespace Lrndis.Control

open Mem

def Handled (m : List UInt8) : Prop :=
  GenericMsg.messageType m ∈ [remoteNdisInitializeMsg, remoteNdisQueryMsg, remoteNdisSetMsg,
    remoteNdisResetMsg, remoteNdisKeepaliveMsg]

instance (m : List UInt8) : Decidable (Handled m) := by unfold Handled; infer_instance

def Answer.size : Answer → Nat
  | .cmplt32 _ _ => 4
  | .cmplt _ data => data.length

def infoLength (oid : UInt32) : Nat := (queryAnswer Ctl.boot {} oid).size

def replyLength (m : List UInt8) : Nat :=
  if GenericMsg.messageType m = remoteNdisInitializeMsg then initializeCmpltSize
  else if GenericMsg.messageType m = remoteNdisQueryMsg then
    queryCmpltSize + infoLength (QueryMsg.oid m)
  else setCmpltSize

/-! ## Answers to queries -/

theorem lookup_map {α β γ : Type} [BEq α] (l : List (α × β)) (f : β → γ) (a : α) :
    (l.map fun p => (p.1, f p.2)).lookup a = (l.lookup a).map f := by
  induction l with
  | nil => rfl
  | cons p l ih =>
    rw [List.map_cons, List.lookup_cons, List.lookup_cons, ih]
    cases a == p.1 <;> rfl

theorem queryAnswer_size (s : Ctl) (stat : UsbEthStat) (oid : UInt32) :
    (queryAnswer s stat oid).size = infoLength oid := by
  have hsizes : ((queryTable s stat).map fun p => (p.1, p.2.size)) =
      (queryTable Ctl.boot {}).map fun p => (p.1, p.2.size) := rfl
  have hget : ∀ o : Option Answer, (o.getD (.cmplt rndisStatusFailure [])).size =
      (o.map Answer.size).getD 0 := by
    intro o
    cases o <;> rfl
  rw [infoLength, queryAnswer, queryAnswer, hget, hget, ← lookup_map, ← lookup_map, hsizes]

theorem infoLength_le (oid : UInt32) : infoLength oid ≤ 4 * oidListLength := by
  have htable : ∀ p ∈ queryTable Ctl.boot {}, p.2.size ≤ 4 * oidListLength := by decide
  unfold infoLength queryAnswer
  cases h : (queryTable Ctl.boot {}).lookup oid with
  | none => exact Nat.zero_le _
  | some a =>
    obtain ⟨before, after, heq, -⟩ := List.lookup_eq_some_iff.mp h
    exact htable (oid, a) (by rw [heq]; simp)

theorem replyLength_le (m : List UInt8) : replyLength m ≤ 112 := by
  have hinfo := infoLength_le (QueryMsg.oid m)
  have hlist : oidListLength = 22 := rfl
  unfold replyLength initializeCmpltSize queryCmpltSize setCmpltSize
  split
  · omega
  · split <;> omega

/-! ## What `usbd_rndis_ep0_recv` leaves in the buffer -/

theorem queryCmpltHeader_length (b : Buffer encBufSize) (status : UInt32) (size : Nat) :
    (queryCmpltHeader b status size).word32 4 =
      UInt32.ofNat queryCmpltSize + UInt32.ofNat size := by
  unfold queryCmpltHeader
  rw [Buffer.word32_setWord32_other _ _ _ _ (by omega),
    Buffer.word32_setWord32_other _ _ _ _ (by omega),
    Buffer.word32_setWord32_other _ _ _ _ (by omega), Buffer.word32_setWord32 _ _ _ (by decide)]

theorem rndisQuery_length (s : Ctl) (stat : UsbEthStat) :
    (rndisQuery s stat).1.encapsulatedBuffer.word32 4 =
      UInt32.ofNat (queryCmpltSize + infoLength (QueryMsg.oid s.encapsulatedBuffer.bytes)) := by
  have hsize := queryAnswer_size s stat (QueryMsg.oid s.encapsulatedBuffer.bytes)
  unfold rndisQuery
  simp only
  rw [UInt32.ofNat_add, ← hsize]
  cases queryAnswer s stat (QueryMsg.oid s.encapsulatedBuffer.bytes) with
  | cmplt32 status data =>
    unfold rndisQueryCmplt32 queryCmpltSize
    rw [Buffer.word32_setWord32_other _ _ _ _ (by omega)]
    exact queryCmpltHeader_length _ _ _
  | cmplt status data =>
    unfold rndisQueryCmplt queryCmpltSize
    simp only
    rw [Buffer.word32_write_outside _ _ _ _ (by omega)]
    exact queryCmpltHeader_length _ _ _

theorem rndisHandleSetMsg_below (s : Ctl) (around : UInt32 → UInt32) (i : Nat) (h : i + 4 ≤ 12) :
    (rndisHandleSetMsg s around).1.encapsulatedBuffer.word32 i =
      ((s.encapsulatedBuffer.setWord32 0 remoteNdisSetCmplt).setWord32 4
        (UInt32.ofNat setCmpltSize)).word32 i := by
  have hstatus : ∀ (b : Buffer encBufSize) (status : UInt32),
      (b.setWord32 12 status).word32 i = b.word32 i := fun b status =>
    Buffer.word32_setWord32_other _ _ _ _ (by omega)
  unfold rndisHandleSetMsg
  simp only
  split
  · exact hstatus _ _
  split
  · exact hstatus _ _
  split
  · exact hstatus _ _
  split
  · exact hstatus _ _
  split
  · exact hstatus _ _
  · exact (hstatus _ _).trans (hstatus _ _)

theorem rndisHandleSetMsg_length (s : Ctl) (around : UInt32 → UInt32) :
    (rndisHandleSetMsg s around).1.encapsulatedBuffer.word32 4 = UInt32.ofNat setCmpltSize := by
  rw [rndisHandleSetMsg_below s around 4 (by decide)]
  exact Buffer.word32_setWord32 _ _ _ (by decide)

theorem initializeCmplt_length (b : Buffer encBufSize) :
    (initializeCmplt b).word32 4 = UInt32.ofNat initializeCmpltSize := by
  unfold initializeCmplt
  simp (disch := omega) only [Buffer.word32_setWord32_other]
  exact Buffer.word32_setWord32 _ _ _ (by decide)

theorem resetCmplt_length (b : Buffer encBufSize) :
    (resetCmplt b).word32 4 = UInt32.ofNat resetCmpltSize := by
  unfold resetCmplt
  simp (disch := omega) only [Buffer.word32_setWord32_other]
  exact Buffer.word32_setWord32 _ _ _ (by decide)

theorem keepaliveCmplt_length (b : Buffer encBufSize) :
    (keepaliveCmplt b).word32 4 = UInt32.ofNat keepaliveCmpltSize := by
  unfold keepaliveCmplt
  simp (disch := omega) only [Buffer.word32_setWord32_other]
  exact Buffer.word32_setWord32 _ _ _ (by decide)

theorem usbdRndisEp0Recv_other (s : Ctl) (stat : UsbEthStat) (around : UInt32 → UInt32)
    (h : ¬ Handled s.encapsulatedBuffer.bytes) : usbdRndisEp0Recv s stat around = (s, []) := by
  unfold Handled at h
  simp only [List.mem_cons, List.not_mem_nil, or_false, not_or] at h
  obtain ⟨h2, h4, h5, h6, h8⟩ := h
  unfold usbdRndisEp0Recv
  simp only
  rw [if_neg h2, if_neg h4, if_neg h5, if_neg h6, if_neg h8]

theorem usbdRndisEp0Recv_length (s : Ctl) (stat : UsbEthStat) (around : UInt32 → UInt32)
    (h : Handled s.encapsulatedBuffer.bytes) :
    (usbdRndisEp0Recv s stat around).1.encapsulatedBuffer.word32 4 =
      UInt32.ofNat (replyLength s.encapsulatedBuffer.bytes) := by
  unfold Handled at h
  simp only [List.mem_cons, List.not_mem_nil, or_false] at h
  unfold usbdRndisEp0Recv replyLength
  simp only
  rcases h with h | h | h | h | h
  · rw [h]
    exact initializeCmplt_length _
  · rw [h]
    exact rndisQuery_length s stat
  · rw [h]
    exact rndisHandleSetMsg_length s around
  · rw [h]
    exact resetCmplt_length _
  · rw [h]
    exact keepaliveCmplt_length _

end Lrndis.Control
