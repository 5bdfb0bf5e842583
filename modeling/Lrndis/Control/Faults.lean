import Lrndis.Control.Completion
import Lrndis.Control.Information

/-!
# Loads that fail

The host says where the information of a SET is, and the driver loads it from there. Where
there is no memory, the load ends in `HardFault_Handler`, which does not return: then the
request has no result.
-/

namespace Lrndis.Control

open Mem

/-- `wordAround`, where there may be nothing at an address. -/
def wordAroundChecked (b : Buffer encBufSize) (around : UInt32 → Option UInt32) (i : UInt32) :
    Option UInt32 :=
  if i.toNat + 4 ≤ encBufSize then some (b.word32 i.toNat) else around i

def rndisHandleSetMsgChecked (s : Ctl) (around : UInt32 → Option UInt32) :
    Option (Ctl × List Request) :=
  let oid := SetMsg.oid s.encapsulatedBuffer.bytes
  let c := s.encapsulatedBuffer.setWord32 0 remoteNdisSetCmplt
  let c := c.setWord32 4 (UInt32.ofNat setCmpltSize)
  let c := c.setWord32 12 rndisStatusSuccess
  let s := { s with encapsulatedBuffer := c }
  let load := wordAroundChecked c around
  if oid = oidGenRndisConfigParameter then do
    let p := SetMsg.informationBufferOffset c.bytes + 8
    -- the arguments of `rndis_handle_config_parm`
    let _nameOffset ← load p
    let _valueOffset ← load (p + 12)
    let _nameLength ← load (p + 4)
    let _valueLength ← load (p + 16)
    some (s, [notification])
  else if oid = oidGenCurrentPacketFilter then do
    let filter ← load (SetMsg.informationBufferOffset c.bytes + 8)
    some ({ s with
        oidPacketFilter := filter
        rndisState := if filter ≠ 0 then .dataInitialized else .initialized }, [notification])
  else if oid = oidGenCurrentLookahead then some (s, [notification])
  else if oid = oidGenProtocolOptions then some (s, [notification])
  else if oid = oid8023MulticastList then some (s, [notification])
  else some ({ s with encapsulatedBuffer := c.setWord32 12 rndisStatusFailure }, [notification])

/-- `usbd_rndis_ep0_recv`. Only a SET loads anything from outside of the buffer. -/
def usbdRndisEp0RecvChecked (s : Ctl) (stat : UsbEthStat) (around : UInt32 → Option UInt32) :
    Option (Ctl × List Request) :=
  if GenericMsg.messageType s.encapsulatedBuffer.bytes = remoteNdisSetMsg then
    rndisHandleSetMsgChecked s around
  else some (usbdRndisEp0Recv s stat fun _ => 0)

/-- All that is read of the information is in the buffer, or in other memory. -/
def Readable (m : List UInt8) (around : UInt32 → Option UInt32) : Prop :=
  ∀ a ∈ infoReads m, a.toNat + 4 ≤ encBufSize ∨ (around a).isSome

section Loads

variable {b : Buffer encBufSize} {around : UInt32 → Option UInt32} {i : UInt32}

theorem wordAroundChecked_some (h : i.toNat + 4 ≤ encBufSize ∨ (around i).isSome) :
    wordAroundChecked b around i = some (wordAround b (fun a => (around a).getD 0) i) := by
  unfold wordAroundChecked wordAround
  by_cases hin : i.toNat + 4 ≤ encBufSize
  · rw [if_pos hin, if_pos hin]
  · obtain ⟨word, hword⟩ := Option.isSome_iff_exists.mp (h.resolve_left hin)
    rw [if_neg hin, if_neg hin]
    simp only [hword, Option.getD_some]

theorem readable_of_load {word : UInt32} (h : wordAroundChecked b around i = some word) :
    i.toNat + 4 ≤ encBufSize ∨ (around i).isSome := by
  unfold wordAroundChecked at h
  split at h
  · rename_i hin
    exact Or.inl hin
  · rw [h]
    exact Or.inr rfl

end Loads

section SetMsg

variable {s : Ctl} {around : UInt32 → Option UInt32}

theorem infoReads_config {m : List UInt8} (h : SetMsg.oid m = oidGenRndisConfigParameter) :
    infoReads m = [infbuf m, infbuf m + 12, infbuf m + 4, infbuf m + 16] := by
  unfold infoReads
  rw [if_pos h]

theorem infoReads_filter {m : List UInt8} (h : SetMsg.oid m = oidGenCurrentPacketFilter) :
    infoReads m = [infbuf m] := by
  unfold infoReads
  rw [if_neg (by rw [h]; decide), if_pos h]

theorem infoReads_other {m : List UInt8} (hconfig : SetMsg.oid m ≠ oidGenRndisConfigParameter)
    (hfilter : SetMsg.oid m ≠ oidGenCurrentPacketFilter) : infoReads m = [] := by
  unfold infoReads
  rw [if_neg hconfig, if_neg hfilter]

theorem rndisHandleSetMsgChecked_some (h : Readable s.encapsulatedBuffer.bytes around) :
    rndisHandleSetMsgChecked s around =
      some (rndisHandleSetMsg s fun a => (around a).getD 0) := by
  unfold rndisHandleSetMsgChecked rndisHandleSetMsg
  simp only [informationBufferOffset_set]
  by_cases hconfig : SetMsg.oid s.encapsulatedBuffer.bytes = oidGenRndisConfigParameter
  · unfold Readable at h
    rw [infoReads_config hconfig] at h
    simp only [List.forall_mem_cons, infbuf] at h
    obtain ⟨h0, h12, h4, h16, -⟩ := h
    simp only [if_pos hconfig, wordAroundChecked_some h0, wordAroundChecked_some h12,
      wordAroundChecked_some h4, wordAroundChecked_some h16, Option.bind_eq_bind, Option.bind_some]
  by_cases hfilter : SetMsg.oid s.encapsulatedBuffer.bytes = oidGenCurrentPacketFilter
  · unfold Readable at h
    rw [infoReads_filter hfilter] at h
    simp only [List.forall_mem_cons, infbuf] at h
    simp only [if_neg hconfig, if_pos hfilter, wordAroundChecked_some h.1, Option.bind_eq_bind,
      Option.bind_some]
  · simp only [if_neg hconfig, if_neg hfilter]
    split
    · rfl
    split
    · rfl
    split
    · rfl
    · rfl

theorem readable_of_result {r : Ctl × List Request} (h : rndisHandleSetMsgChecked s around = some r) :
    Readable s.encapsulatedBuffer.bytes around := by
  unfold rndisHandleSetMsgChecked at h
  simp only [informationBufferOffset_set] at h
  unfold Readable
  by_cases hconfig : SetMsg.oid s.encapsulatedBuffer.bytes = oidGenRndisConfigParameter
  · simp only [if_pos hconfig, Option.bind_eq_bind, Option.bind_eq_some_iff] at h
    obtain ⟨_, h0, _, h12, _, h4, _, h16, -⟩ := h
    rw [infoReads_config hconfig]
    simp only [List.forall_mem_cons]
    exact ⟨readable_of_load h0, readable_of_load h12, readable_of_load h4, readable_of_load h16,
      fun _ hin => absurd hin List.not_mem_nil⟩
  by_cases hfilter : SetMsg.oid s.encapsulatedBuffer.bytes = oidGenCurrentPacketFilter
  · simp only [if_neg hconfig, if_pos hfilter, Option.bind_eq_bind, Option.bind_eq_some_iff] at h
    obtain ⟨_, h0, -⟩ := h
    rw [infoReads_filter hfilter, List.forall_mem_singleton]
    exact readable_of_load h0
  · rw [infoReads_other hconfig hfilter]
    exact fun _ hin => absurd hin List.not_mem_nil

end SetMsg

/-! ## Every request is completed -/

/-- A request is turned into its completion, with one notification of eight bytes, and
anything else is left as it is. -/
def Completed (s : Ctl) (stat : UsbEthStat) (around : UInt32 → Option UInt32) : Prop :=
  ∃ r, usbdRndisEp0RecvChecked s stat around = some r ∧
    if Handled s.encapsulatedBuffer.bytes then
      Completes s.encapsulatedBuffer r.1.encapsulatedBuffer ∧
        ∃ bytes, r.2 = [.notify bytes] ∧ bytes.length = 8
    else r.1.encapsulatedBuffer = s.encapsulatedBuffer ∧ r.2 = []

theorem completed_of_result {s : Ctl} {stat : UsbEthStat} {around : UInt32 → Option UInt32}
    (known : UInt32 → UInt32)
    (h : usbdRndisEp0RecvChecked s stat around = some (usbdRndisEp0Recv s stat known)) :
    Completed s stat around := by
  refine ⟨_, h, ?_⟩
  split
  · rename_i hyes
    exact ⟨usbdRndisEp0Recv_completes s stat known hyes, _,
      usbdRndisEp0Recv_notifies s stat known hyes, rfl⟩
  · rename_i hno
    exact usbdRndisEp0Recv_ignores s stat known hno

/-- The driver completes exactly the messages that have it load nothing from where there is no
memory: all but SETs, and SETs whose information can be read. -/
theorem request_completed_iff (s : Ctl) (stat : UsbEthStat) (around : UInt32 → Option UInt32) :
    let m := s.encapsulatedBuffer.bytes
    Completed s stat around ↔
      (GenericMsg.messageType m = remoteNdisSetMsg → Readable m around) := by
  intro m
  constructor
  · rintro ⟨r, hresult, -⟩ hset
    unfold usbdRndisEp0RecvChecked at hresult
    rw [if_pos hset] at hresult
    exact readable_of_result hresult
  · intro h
    by_cases hset : GenericMsg.messageType m = remoteNdisSetMsg
    · apply completed_of_result fun a => (around a).getD 0
      unfold usbdRndisEp0RecvChecked
      rw [if_pos hset, rndisHandleSetMsgChecked_some (h hset), usbdRndisEp0Recv_set _ _ _ hset]
    · apply completed_of_result fun _ => 0
      unfold usbdRndisEp0RecvChecked
      rw [if_neg hset]

def memoryBehind (a : UInt32) : Option UInt32 := if a < 0x10000 then some 0 else none

/-- An offset that leads out of the memory, and one that does not. -/
theorem request_faults :
    (¬ ∀ s stat around, Completed s stat around) ∧
      usbdRndisEp0RecvChecked (filterAt 0x9FFFFFF8) {} memoryBehind = none ∧
      (usbdRndisEp0RecvChecked (filterAt 0x2000) {} memoryBehind).isSome := by
  have hfault : usbdRndisEp0RecvChecked (filterAt 0x9FFFFFF8) {} memoryBehind = none := by
    decide +kernel
  refine ⟨fun h => ?_, hfault, by decide +kernel⟩
  obtain ⟨r, hresult, -⟩ := h (filterAt 0x9FFFFFF8) {} memoryBehind
  rw [hfault] at hresult
  cases hresult

end Lrndis.Control
