import Lrndis.Control.Completion
import Lrndis.Lib.Run

/-!
# The state and the history of the control messages

`rndis_state` and `oid_packet_filter` should say the same about the messages so far. Each
handler changes one of them, or both, and none looks at them first.
-/

namespace Lrndis.Control

open Mem Run

/-! ## Messages -/

def SetsFilter (m : List UInt8) : Prop :=
  GenericMsg.messageType m = remoteNdisSetMsg ∧ SetMsg.oid m = oidGenCurrentPacketFilter

instance (m : List UInt8) : Decidable (SetsFilter m) := by unfold SetsFilter; infer_instance

/-- A control message as `usbd_rndis_ep0_recv` finds it in the buffer. The value of a packet
filter is in the buffer too, behind the Oid. -/
structure Message where
  content : Buffer encBufSize
  stat : UsbEthStat
  around : UInt32 → UInt32
  valid : SetsFilter content.bytes →
    8 ≤ (SetMsg.informationBufferOffset content.bytes).toNat ∧
      (SetMsg.informationBufferOffset content.bytes).toNat + 12 ≤ encBufSize

inductive Kind
  | initializeMsg
  | resetMsg
  | packetFilter (value : UInt32)
  | other
deriving DecidableEq

def Message.kind (m : Message) : Kind :=
  let type := GenericMsg.messageType m.content.bytes
  if type = remoteNdisInitializeMsg then .initializeMsg
  else if type = remoteNdisResetMsg then .resetMsg
  else if SetsFilter m.content.bytes then
    .packetFilter
      (m.content.word32 ((SetMsg.informationBufferOffset m.content.bytes).toNat + 8))
  else .other

def Kind.filter : Kind → Option UInt32
  | packetFilter value => some value
  | _ => none

def receive (s : Ctl) (m : Message) : Ctl × List Request :=
  usbdRndisEp0Recv { s with encapsulatedBuffer := m.content } m.stat m.around

/-! ## What the history says -/

def initialised (h : List Message) : Bool :=
  (h.reverse.takeWhile fun m => m.kind ≠ .resetMsg).any fun m => m.kind = .initializeMsg

def lastFilter (h : List Message) : Option UInt32 :=
  (h.reverse.takeWhile fun m => m.kind ≠ .initializeMsg).findSome? fun m => m.kind.filter

def AsksFilter (m : List UInt8) : Prop :=
  GenericMsg.messageType m = remoteNdisQueryMsg ∧ QueryMsg.oid m = oidGenCurrentPacketFilter

/-- The state is what the history says, and in `initialized` the packet filter is told to be
0. The information buffer of an answer is at 24. -/
structure Tracks (s : Ctl) (h : List Message) : Prop where
  uninitialized : s.rndisState = .uninitialized ↔ initialised h = false
  dataInitialized : s.rndisState = .dataInitialized ↔
    initialised h = true ∧ ∃ value, lastFilter h = some value ∧ value ≠ 0
  filter : s.rndisState = .initialized → ∀ m : Message, AsksFilter m.content.bytes →
    (receive s m).1.encapsulatedBuffer.word32 queryCmpltSize = 0

theorem initialised_snoc (h : List Message) (m : Message) :
    initialised (h ++ [m]) =
      match m.kind with
      | .initializeMsg => true
      | .resetMsg => false
      | _ => initialised h := by
  unfold initialised
  rw [List.reverse_append, List.reverse_singleton, List.singleton_append, List.takeWhile_cons]
  cases hk : m.kind <;> simp [hk]

theorem lastFilter_snoc (h : List Message) (m : Message) :
    lastFilter (h ++ [m]) =
      match m.kind with
      | .initializeMsg => none
      | .packetFilter value => some value
      | _ => lastFilter h := by
  unfold lastFilter
  rw [List.reverse_append, List.reverse_singleton, List.singleton_append, List.takeWhile_cons]
  cases hk : m.kind <;> simp [hk, Kind.filter]

/-! ## What a message does -/

theorem usbdRndisEp0Recv_set (s : Ctl) (stat : UsbEthStat) (around : UInt32 → UInt32)
    (h : GenericMsg.messageType s.encapsulatedBuffer.bytes = remoteNdisSetMsg) :
    usbdRndisEp0Recv s stat around = rndisHandleSetMsg s around := by
  unfold usbdRndisEp0Recv
  simp only
  rw [h]
  rfl

/-- The value that the handler reads is the one of the request: the completion, which is
written first, does not touch it. -/
theorem wordAround_filter (b : Buffer encBufSize) (around : UInt32 → UInt32) (off : UInt32)
    (t l st : UInt32) (hoff : SetMsg.informationBufferOffset b.bytes = off) (h8 : 8 ≤ off.toNat)
    (hroom : off.toNat + 12 ≤ encBufSize) :
    let c := ((b.setWord32 0 t).setWord32 4 l).setWord32 12 st
    wordAround c around (SetMsg.informationBufferOffset c.bytes + 8) =
      b.word32 (off.toNat + 8) := by
  intro c
  have hsame : ∀ i, 16 ≤ i → c.word32 i = b.word32 i := by
    intro i hi
    unfold c
    simp (disch := omega) only [Buffer.word32_setWord32_other]
  have hc : SetMsg.informationBufferOffset c.bytes = off := (hsame 20 (by decide)).trans hoff
  have h120 : encBufSize = 120 := rfl
  have hadd : (off + 8).toNat = off.toNat + 8 := by
    rw [UInt32.toNat_add, show (8 : UInt32).toNat = 8 from rfl]
    omega
  unfold wordAround
  rw [hc, hadd, if_pos (by omega)]
  exact hsame _ (by omega)

theorem rndisHandleSetMsg_keeps (s : Ctl) (around : UInt32 → UInt32)
    (h : SetMsg.oid s.encapsulatedBuffer.bytes ≠ oidGenCurrentPacketFilter) :
    (rndisHandleSetMsg s around).1.rndisState = s.rndisState ∧
      (rndisHandleSetMsg s around).1.oidPacketFilter = s.oidPacketFilter := by
  unfold rndisHandleSetMsg
  simp only [if_neg h]
  split
  · exact ⟨rfl, rfl⟩
  split
  · exact ⟨rfl, rfl⟩
  split
  · exact ⟨rfl, rfl⟩
  split
  · exact ⟨rfl, rfl⟩
  · exact ⟨rfl, rfl⟩

theorem rndisHandleSetMsg_filter (s : Ctl) (around : UInt32 → UInt32) (value : UInt32)
    (h : SetMsg.oid s.encapsulatedBuffer.bytes = oidGenCurrentPacketFilter)
    (hvalue : let c := ((s.encapsulatedBuffer.setWord32 0 remoteNdisSetCmplt).setWord32 4
        (UInt32.ofNat setCmpltSize)).setWord32 12 rndisStatusSuccess
      wordAround c around (SetMsg.informationBufferOffset c.bytes + 8) = value) :
    (rndisHandleSetMsg s around).1.rndisState =
        (if value ≠ 0 then .dataInitialized else .initialized) ∧
      (rndisHandleSetMsg s around).1.oidPacketFilter = value := by
  have hne : oidGenCurrentPacketFilter ≠ oidGenRndisConfigParameter := by decide
  unfold rndisHandleSetMsg
  simp only [h, if_neg hne, if_true]
  rw [hvalue]
  exact ⟨rfl, rfl⟩

theorem usbdRndisEp0Recv_keeps (s : Ctl) (stat : UsbEthStat) (around : UInt32 → UInt32)
    (hinit : GenericMsg.messageType s.encapsulatedBuffer.bytes ≠ remoteNdisInitializeMsg)
    (hreset : GenericMsg.messageType s.encapsulatedBuffer.bytes ≠ remoteNdisResetMsg)
    (hset : ¬ SetsFilter s.encapsulatedBuffer.bytes) :
    (usbdRndisEp0Recv s stat around).1.rndisState = s.rndisState ∧
      (usbdRndisEp0Recv s stat around).1.oidPacketFilter = s.oidPacketFilter := by
  unfold usbdRndisEp0Recv
  simp only [if_neg hinit, if_neg hreset]
  split
  · exact ⟨rfl, rfl⟩
  split
  · rename_i htype
    exact rndisHandleSetMsg_keeps s around fun hoid => hset ⟨htype, hoid⟩
  split
  · exact ⟨rfl, rfl⟩
  · exact ⟨rfl, rfl⟩

theorem receive_spec (s : Ctl) (m : Message) :
    let s' := (receive s m).1
    match m.kind with
    | .initializeMsg => s'.rndisState = .initialized ∧ s'.oidPacketFilter = s.oidPacketFilter
    | .resetMsg => s'.rndisState = .uninitialized ∧ s'.oidPacketFilter = s.oidPacketFilter
    | .packetFilter value =>
      s'.rndisState = (if value ≠ 0 then .dataInitialized else .initialized) ∧
        s'.oidPacketFilter = value
    | .other => s'.rndisState = s.rndisState ∧ s'.oidPacketFilter = s.oidPacketFilter := by
  intro s'
  unfold Message.kind
  simp only
  by_cases hinit : GenericMsg.messageType m.content.bytes = remoteNdisInitializeMsg
  · unfold s' receive usbdRndisEp0Recv
    simp only [if_pos hinit]
    exact ⟨trivial, trivial⟩
  rw [if_neg hinit]
  by_cases hreset : GenericMsg.messageType m.content.bytes = remoteNdisResetMsg
  · unfold s' receive usbdRndisEp0Recv
    simp only [hreset]
    exact ⟨rfl, rfl⟩
  rw [if_neg hreset]
  by_cases hset : SetsFilter m.content.bytes
  · obtain ⟨h8, hroom⟩ := m.valid hset
    rw [if_pos hset]
    unfold s' receive
    rw [usbdRndisEp0Recv_set { s with encapsulatedBuffer := m.content } m.stat m.around hset.1]
    apply rndisHandleSetMsg_filter { s with encapsulatedBuffer := m.content } m.around _ hset.2
    exact wordAround_filter m.content m.around (SetMsg.informationBufferOffset m.content.bytes)
      remoteNdisSetCmplt (UInt32.ofNat setCmpltSize) rndisStatusSuccess rfl h8 hroom
  · rw [if_neg hset]
    exact usbdRndisEp0Recv_keeps { s with encapsulatedBuffer := m.content } m.stat m.around hinit
      hreset hset

theorem queryAnswer_filter (s : Ctl) (stat : UsbEthStat) :
    queryAnswer s stat oidGenCurrentPacketFilter =
      .cmplt32 rndisStatusSuccess s.oidPacketFilter := rfl

theorem receive_asksFilter (s : Ctl) (m : Message) (h : AsksFilter m.content.bytes) :
    (receive s m).1.encapsulatedBuffer.word32 queryCmpltSize = s.oidPacketFilter := by
  unfold receive
  rw [usbdRndisEp0Recv_query { s with encapsulatedBuffer := m.content } m.stat m.around h.1]
  unfold rndisQuery
  simp only [h.2, queryAnswer_filter]
  exact Buffer.word32_setWord32 _ _ _ (by decide)

/-! ## When the state tracks the history -/

/-- A packet filter is set after INITIALIZE only, and INITIALIZE comes only while the packet
filter is 0. -/
def Orderly (s : Ctl) (m : Message) : Prop :=
  match m.kind with
  | .packetFilter _ => s.rndisState ≠ .uninitialized
  | .initializeMsg => s.oidPacketFilter = 0
  | _ => True

def filterQuery : Message where
  content := (Buffer.zero _).write 0 (bytes32 remoteNdisQueryMsg ++ bytes32 28 ++ bytes32 1 ++
    bytes32 oidGenCurrentPacketFilter)
  stat := {}
  around := fun _ => 0
  valid := by
    intro h
    exact absurd h.1 (by decide)

theorem tracks_filter {s : Ctl} :
    (s.rndisState = .initialized → ∀ m : Message, AsksFilter m.content.bytes →
      (receive s m).1.encapsulatedBuffer.word32 queryCmpltSize = 0) ↔
    (s.rndisState = .initialized → s.oidPacketFilter = 0) := by
  constructor
  · intro h hs
    have hq := h hs filterQuery ⟨by decide, by decide⟩
    rwa [receive_asksFilter _ _ ⟨by decide, by decide⟩] at hq
  · intro h hs m hm
    rw [receive_asksFilter s m hm]
    exact h hs

theorem tracks_iff {s : Ctl} {h : List Message} :
    Tracks s h ↔ (s.rndisState = .uninitialized ↔ initialised h = false) ∧
      (s.rndisState = .dataInitialized ↔
        initialised h = true ∧ ∃ value, lastFilter h = some value ∧ value ≠ 0) ∧
      (s.rndisState = .initialized → s.oidPacketFilter = 0) := by
  rw [← tracks_filter]
  exact ⟨fun ht => ⟨ht.1, ht.2, ht.3⟩, fun ⟨h1, h2, h3⟩ => ⟨h1, h2, h3⟩⟩

theorem tracks_step (s : Ctl) (h : List Message) (m : Message) (ht : Tracks s h) :
    Tracks (receive s m).1 (h ++ [m]) ↔ Orderly s m := by
  have hspec := receive_spec s m
  have hinit := initialised_snoc h m
  have hlast := lastFilter_snoc h m
  rw [tracks_iff] at ht ⊢
  unfold Orderly
  cases hk : m.kind with
  | initializeMsg =>
    simp only [hk] at hspec hinit hlast
    rw [hspec.1, hspec.2, hinit, hlast]
    simp
  | resetMsg =>
    simp only [hk] at hspec hinit hlast
    rw [hspec.1, hinit]
    simp
  | packetFilter value =>
    simp only [hk] at hspec hinit hlast
    rw [hspec.1, hspec.2, hinit, hlast]
    simp only [ne_eq, ht.1]
    by_cases hv : value = 0
    · simp [hv]
    · simp [hv]
  | other =>
    simp only [hk] at hspec hinit hlast
    rw [hspec.1, hspec.2, hinit, hlast]
    exact iff_of_true ht trivial

/-- The state tracks the messages all along exactly if every message comes in order. -/
theorem state_tracks_iff (ms : List Message) :
    (∀ p, p <+: ms → Tracks (run receive Ctl.boot p).1 p) ↔ Along receive Orderly Ctl.boot ms := by
  apply tracks_iff_along tracks_step
  rw [tracks_iff]
  decide

def initializeMessage : Message where
  content := (Buffer.zero _).write 0 (bytes32 remoteNdisInitializeMsg ++ bytes32 24 ++ bytes32 1)
  stat := {}
  around := fun _ => 0
  valid := by
    intro h
    exact absurd h.1 (by decide)

def filterMessage : Message where
  content := (Buffer.zero _).write 0 (bytes32 remoteNdisSetMsg ++ bytes32 32 ++ bytes32 1 ++
    bytes32 oidGenCurrentPacketFilter ++ bytes32 4 ++ bytes32 20 ++ bytes32 0 ++ bytes32 1)
  stat := {}
  around := fun _ => 0
  valid := fun _ => by decide

/-- A packet filter before any INITIALIZE makes the device data-initialized, and a second
INITIALIZE leaves the packet filter as it was. -/
theorem state_diverges :
    let twice := [initializeMessage, filterMessage, initializeMessage]
    (¬ ∀ ms p, p <+: ms → Tracks (run receive Ctl.boot p).1 p) ∧
    (run receive Ctl.boot [filterMessage]).1.rndisState = .dataInitialized ∧
    (run receive Ctl.boot twice).1.rndisState = .initialized ∧
    (receive (run receive Ctl.boot twice).1 filterQuery).1.encapsulatedBuffer.word32
      queryCmpltSize = 1 := by
  intro twice
  have hdata : (run receive Ctl.boot [filterMessage]).1.rndisState = .dataInitialized := by
    decide +kernel
  refine ⟨fun h => ?_, hdata, by decide +kernel, by decide +kernel⟩
  have hinit := ((h [filterMessage] _ List.prefix_rfl).dataInitialized.mp hdata).1
  exact absurd hinit (by decide +kernel)

end Lrndis.Control
