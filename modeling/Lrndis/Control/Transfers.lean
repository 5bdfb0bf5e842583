import Lrndis.Control.Spec
import Lrndis.Lib.Run

/-!
# Control transfers and `encapsulated_buffer`

The host sends setup packets and the packets of OUT data stages in any order. Neither
length that the driver passes on is checked: the one of a data stage is the host's, the
one of a reply is read back from the buffer.
-/

namespace Lrndis.Control

open Mem Run

/-- What the buffer holds, as the host knows it. -/
inductive Heard
  | unanswered (m : List UInt8)
  | answered (m : List UInt8)
deriving DecidableEq

structure Sys where
  ctl : Ctl
  /-- The length of the OUT data stage, and how much of it has arrived. -/
  rx : Option (UInt16 × Nat)
  heard : Heard
deriving DecidableEq

def Sys.boot : Sys where
  ctl := Ctl.boot
  rx := none
  heard := .unanswered Ctl.boot.encapsulatedBuffer.bytes

inductive Input
  | setup (req : SetupReq)
  | packet (bytes : List UInt8)
  /-- The data stage is complete. The statistics are those of that moment. -/
  | rxReady (stat : UsbEthStat) (around : UInt32 → UInt32)

inductive Output
  /-- What `usbd_rndis_setup` asked for in answer to the request. -/
  | armed (req : SetupReq) (r : Request)
  | notified (r : Request)
deriving DecidableEq

def stage : List Request → Option (UInt16 × Nat)
  | [.ctlPrepareRx len] => some (len, 0)
  | _ => none

def step (s : Sys) : Input → Sys × List Output
  | .setup req =>
    ({ s with rx := stage (usbdRndisSetup s.ctl req) },
      (usbdRndisSetup s.ctl req).map (.armed req))
  | .packet bytes =>
    match s.rx with
    | none => (s, [])
    | some (len, pos) =>
      if pos + bytes.length ≤ len.toNat then
        let b := s.ctl.encapsulatedBuffer.write pos bytes
        ({ s with
            ctl.encapsulatedBuffer := b
            rx := some (len, pos + bytes.length)
            heard := .unanswered b.bytes }, [])
      else (s, [])
  | .rxReady stat around =>
    match s.rx with
    | none => (s, [])
    | some _ =>
      let m := s.ctl.encapsulatedBuffer.bytes
      let r := usbdRndisEp0Recv s.ctl stat around
      ({ ctl := r.1
         rx := none
         heard := if Handled m then .answered m else .unanswered m }, r.2.map .notified)

/-! ## The lengths -/

def Within : Output → Prop
  | .armed req (.ctlSendData len) => len.toNat ≤ encBufSize ∧ len ≤ req.wLength
  | .armed _ (.ctlPrepareRx len) => len.toNat ≤ encBufSize
  | _ => True

def Heard.Fetchable (wLength : UInt16) : Heard → Prop
  | .answered m => replyLength m ≤ wLength.toNat
  | .unanswered m =>
    (GenericMsg.messageLength m).toNat % 2 ^ 16 ≤ encBufSize ∧
      (GenericMsg.messageLength m).toNat % 2 ^ 16 ≤ wLength.toNat

/-- The host announces no more than the buffer holds, and it fetches only with room for
the reply. If the driver did not answer, the reply is the host's own message again, with
the length that it says. -/
def Fits (s : Sys) : Input → Prop
  | .setup req =>
    req.bmRequest &&& usbReqTypeMask = usbReqTypeClass → req.wLength ≠ 0 →
      if req.bmRequest &&& 0x80 ≠ 0 then s.heard.Fetchable req.wLength
      else req.wLength.toNat ≤ encBufSize
  | _ => True

def Inv (s : Sys) : Prop :=
  match s.heard with
  | .unanswered m => s.ctl.encapsulatedBuffer.bytes = m
  | .answered m =>
    GenericMsg.messageLength s.ctl.encapsulatedBuffer.bytes = UInt32.ofNat (replyLength m)

theorem inv_step (s : Sys) (i : Input) (h : Inv s) : Inv (step s i).1 := by
  cases i with
  | setup req => exact h
  | packet bytes =>
    unfold step
    simp only
    split
    · exact h
    · split
      · rfl
      · exact h
  | rxReady stat around =>
    unfold step
    simp only
    split
    · exact h
    · unfold Inv
      simp only
      split
      · rename_i m hm
        split at hm
        · simp at hm
        · rename_i hno
          rw [usbdRndisEp0Recv_other s.ctl stat around hno]
          exact Heard.unanswered.inj hm
      · rename_i m hm
        split at hm
        · rename_i hyes
          rw [← Heard.answered.inj hm]
          exact usbdRndisEp0Recv_length s.ctl stat around hyes
        · simp at hm

theorem fetchable_iff (s : Sys) (h : Inv s) (len wLength : UInt16)
    (hlen : len = (GenericMsg.messageLength s.ctl.encapsulatedBuffer.bytes).toUInt16) :
    len.toNat ≤ encBufSize ∧ len ≤ wLength ↔ s.heard.Fetchable wLength := by
  have hmod : len.toNat =
      (GenericMsg.messageLength s.ctl.encapsulatedBuffer.bytes).toNat % 2 ^ 16 := by
    rw [hlen]
    rfl
  rw [UInt16.le_iff_toNat_le, hmod]
  unfold Inv at h
  unfold Heard.Fetchable
  cases hh : s.heard with
  | unanswered m =>
    rw [hh] at h
    simp only at h
    rw [h]
  | answered m =>
    rw [hh] at h
    simp only at h
    have hle := replyLength_le m
    have h120 : encBufSize = 120 := rfl
    rw [h, UInt32.toNat_ofNat']
    simp only
    omega

theorem within_iff (s : Sys) (i : Input) (h : Inv s) :
    (∀ o ∈ (step s i).2, Within o) ↔ Fits s i := by
  cases i with
  | setup req =>
    unfold step Fits usbdRndisSetup
    simp only
    split
    · rename_i hclass
      split
      · rename_i hlen
        split
        · rename_i hin
          rw [← fetchable_iff s h _ req.wLength rfl]
          simp [Within, hclass, hlen]
        · simp [Within, hclass, hlen]
      · rename_i hzero
        simp [hzero]
    · rename_i hclass
      simp [hclass]
  | packet bytes =>
    unfold step Fits
    simp only
    split
    · simp
    · split <;> simp
  | rxReady stat around =>
    unfold step Fits
    simp only
    split
    · simp
    · simp [Within]

/-- The transfers stay within the buffer and the request exactly as long as the host
keeps to the lengths. -/
theorem transfers_within_iff (is : List Input) :
    (∀ o ∈ (run step Sys.boot is).2, Within o) ↔ Along step Fits Sys.boot is :=
  outputs_iff_along inv_step within_iff (show Inv Sys.boot from rfl) is

/-- An OUT request of 4096 bytes, a reply of 52 bytes to a request for 8, and a message
of an unknown type that says it has 65535 bytes. -/
theorem transfers_outside :
    (¬ ∀ is, ∀ o ∈ (run step Sys.boot is).2, Within o) ∧
    .armed ⟨0x21, 4096⟩ (.ctlPrepareRx 4096) ∈ (run step Sys.boot [.setup ⟨0x21, 4096⟩]).2 ∧
    .armed ⟨0xA1, 8⟩ (.ctlSendData 52) ∈ (run step Sys.boot [.setup ⟨0x21, 24⟩,
      .packet (bytes32 remoteNdisInitializeMsg ++ bytes32 24 ++ List.replicate 16 0),
      .rxReady {} (fun _ => 0), .setup ⟨0xA1, 8⟩]).2 ∧
    .armed ⟨0xA1, 4096⟩ (.ctlSendData 65535) ∈ (run step Sys.boot [.setup ⟨0x21, 8⟩,
      .packet (bytes32 3 ++ bytes32 65535), .rxReady {} (fun _ => 0), .setup ⟨0xA1, 4096⟩]).2 := by
  have hout : .armed ⟨0x21, 4096⟩ (.ctlPrepareRx 4096) ∈
      (run step Sys.boot [.setup ⟨0x21, 4096⟩]).2 := by decide +kernel
  refine ⟨fun h => ?_, hout, by decide +kernel, by decide +kernel⟩
  have hwithin : (4096 : UInt16).toNat ≤ encBufSize := h _ _ hout
  exact absurd hwithin (by decide)

end Lrndis.Control
