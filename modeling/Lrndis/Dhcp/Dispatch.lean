import Lrndis.Dhcp.Format
import Lrndis.Dhcp.Stale

/-!
# Which message it is

The message type is the value of option 53. `udp_recv_proc` takes it from where it is if
option 53 is the first one, and looks at neither `dp_op` nor `dp_magic`.
-/

namespace Lrndis.Dhcp

open Mem

/-- The value of option 53, wherever it stands. -/
def typeOption (data : List UInt8) : Option UInt8 :=
  match Tlv.find dhcpGrammar (options data) DhcpType.optionsSize dhcpMessagetype with
  | none => none
  | some i =>
    if byteAt (options data) (i + 1) = 1 then some (byteAt (options data) (i + 2)) else none

def Bootrequest (data : List UInt8) : Prop :=
  byteAt data DhcpType.op = 1 ∧ slice data DhcpType.magic 4 = magicCookie

instance (data : List UInt8) : Decidable (Bootrequest data) := by
  unfold Bootrequest; infer_instance

def Handled (t : UInt8) : Prop := t = dhcpDiscover ∨ t = dhcpRequest

instance (t : UInt8) : Decidable (Handled t) := by unfold Handled; infer_instance

/-- The server answers, or changes its table. -/
def Acts {n : Nat} (s : Server n) (d : Datagram) : Prop :=
  datagrams (udpRecvProc s d).2 ≠ [] ∨ (udpRecvProc s d).1.entries ≠ s.entries

/-- The server acts only on a DHCP request that says what it is, and takes the branch for
that. -/
def Dispatched (payload : List UInt8) : Prop :=
  ∀ (n : Nat) (s : Server n) (port : UInt16) (alloc : Bool),
    let d : Datagram := { payload, port, alloc }
    (Acts s d → Bootrequest payload ∧
      ∃ t, Handled t ∧ typeOption payload = some t ∧ typeOf s d = t) ∧
    (Bootrequest payload → ∀ t, Handled t → typeOption payload = some t → typeOf s d = t)

/-- The byte behind the first code and its length is the message type where there is one,
and where it is that of a message that is acted on, there is one. -/
def FirstIsType (payload : List UInt8) : Prop :=
  (Bootrequest payload → ∀ t, Handled t → typeOption payload = some t → messageType payload = t) ∧
  (messageType payload = dhcpDiscover ∨
      (messageType payload = dhcpRequest ∧ requestedAddr payload ≠ none) →
    Bootrequest payload ∧ typeOption payload = some (messageType payload))

section Whole

variable {n : Nat} {s : Server n} {d : Datagram}

theorem options_own (hlen : DhcpType.size ≤ d.payload.length) :
    options (received s d).dhcpData.bytes = options d.payload := by
  obtain ⟨rest, hrest, hlens⟩ := received_options s d
  have hown : (options d.payload).length = DhcpType.optionsSize := by
    apply slice_length
    rw [DhcpType.size] at hlen
    rw [DhcpType.options, DhcpType.optionsSize]
    omega
  obtain rfl : rest = [] := List.length_eq_zero_iff.mp (by omega)
  rw [hrest, List.append_nil]

theorem typeOf_whole (hlen : DhcpType.size ≤ d.payload.length) :
    typeOf s d = messageType d.payload := by
  unfold typeOf messageType
  rw [options_own hlen]

theorem wanted_whole (hlen : DhcpType.size ≤ d.payload.length) :
    wanted s d = requestedAddr d.payload := by
  unfold wanted requestedAddr
  rw [options_own hlen]

theorem acts_cases (h : Acts s d) :
    typeOf s d = dhcpDiscover ∨ (typeOf s d = dhcpRequest ∧ wanted s d ≠ none) := by
  by_contra hno
  rw [not_or, not_and, not_ne_iff] at hno
  unfold Acts at h
  rw [step_unanswered s d hno.1 hno.2] at h
  rcases h with h | h
  · exact h rfl
  · exact h rfl

end Whole

theorem exists_acts {payload : List UInt8} (hlen : DhcpType.size ≤ payload.length)
    (h : messageType payload = dhcpDiscover ∨
      (messageType payload = dhcpRequest ∧ requestedAddr payload ≠ none)) :
    ∃ s : Server 1, Acts s { payload, port := 68, alloc := true } := by
  have hanswered : ∃ addr, Answered payload addr := by
    rcases h with h1 | ⟨h3, hip⟩
    · exact ⟨0, Or.inl h1⟩
    · obtain ⟨addr, haddr⟩ := Option.ne_none_iff_exists'.mp hip
      exact ⟨addr, Or.inr ⟨h3, haddr⟩⟩
  obtain ⟨addr, hans⟩ := hanswered
  let d : Datagram := { payload, port := 68, alloc := true }
  let data := (received (single (Buffer.zero _) addr) d).dhcpData
  have hdata : (received (single data addr) d).dhcpData = data := received_full hlen
  have hoptions : options data.bytes = options payload := options_own (d := d) hlen
  have hans' : Answered data.bytes addr := by
    unfold Answered messageType requestedAddr at hans ⊢
    rw [hoptions]
    exact hans
  obtain ⟨e, t, hreply⟩ := single_answers data addr d hdata rfl hans'
  refine ⟨single data addr, Or.inl ?_⟩
  rw [hreply]
  exact List.cons_ne_nil _ _

/-- Exactly the datagrams whose first option gives the type away are dispatched by their
type. -/
theorem dispatched_iff (payload : List UInt8) (hlen : DhcpType.size ≤ payload.length) :
    Dispatched payload ↔ FirstIsType payload := by
  constructor
  · intro h
    constructor
    · intro hboot t ht htype
      rw [← typeOf_whole (s := single (Buffer.zero _) 0) (d := ⟨payload, 68, true⟩) hlen]
      exact (h 1 _ 68 true).2 hboot t ht htype
    · intro hacts
      obtain ⟨s, hs⟩ := exists_acts hlen hacts
      obtain ⟨hboot, t, -, htype, ht⟩ := (h 1 s 68 true).1 hs
      rw [typeOf_whole hlen] at ht
      rw [ht]
      exact ⟨hboot, htype⟩
  · rintro ⟨hfirst, hacts⟩ n s port alloc d
    have htypeOf : typeOf s d = messageType payload := typeOf_whole hlen
    refine ⟨fun h => ?_, ?_⟩
    · have hcases := acts_cases h
      rw [htypeOf, wanted_whole (s := s) (d := d) hlen] at hcases
      obtain ⟨hboot, htype⟩ := hacts hcases
      refine ⟨hboot, messageType payload, ?_, htype, htypeOf⟩
      exact hcases.imp id And.left
    · intro hboot t ht htype
      rw [htypeOf]
      exact hfirst hboot t ht htype

def bootp (op : UInt8) (opts : List UInt8) : List UInt8 :=
  [op] ++ List.replicate 27 0 ++ List.replicate 6 1 ++ List.replicate 202 0 ++ magicCookie ++
    opts ++ List.replicate (276 - opts.length) 0

theorem dispatched_first : Dispatched (bootp 1 [53, 1, 1, 255]) := by
  apply (dispatched_iff _ (by decide +kernel)).mpr
  have htype : typeOption (bootp 1 [53, 1, 1, 255]) = some 1 := by decide +kernel
  have hmessage : messageType (bootp 1 [53, 1, 1, 255]) = 1 := by decide +kernel
  refine ⟨?_, fun _ => ⟨by decide +kernel, by rw [htype, hmessage]⟩⟩
  rintro - t - ht
  rw [htype] at ht
  rw [hmessage]
  exact Option.some.inj ht

/-- A DISCOVER behind another option is not answered, and what is no DISCOVER is offered an
address: a reply, and a message of one other option. -/
theorem misdispatched :
    (¬ ∀ payload, DhcpType.size ≤ payload.length → Dispatched payload) ∧
    (∀ payload ∈ [bootp 1 [12, 2, 80, 67, 53, 1, 1, 255]],
      Bootrequest payload ∧ typeOption payload = some dhcpDiscover ∧
        datagrams (udpRecvProc pool ⟨payload, 68, true⟩).2 = []) ∧
    ∀ payload ∈ [bootp 2 [53, 1, 1, 255], bootp 1 [12, 1, 1, 255]],
      (Bootrequest payload → typeOption payload = none) ∧
        (datagrams (udpRecvProc pool ⟨payload, 68, true⟩).2).length = 1 := by
  have hothers : ∀ payload ∈ [bootp 2 [53, 1, 1, 255], bootp 1 [12, 1, 1, 255]],
      (Bootrequest payload → typeOption payload = none) ∧
        (datagrams (udpRecvProc pool ⟨payload, 68, true⟩).2).length = 1 := by decide +kernel
  refine ⟨fun h => ?_, by decide +kernel, hothers⟩
  obtain ⟨-, hlen⟩ := hothers (bootp 2 [53, 1, 1, 255]) List.mem_cons_self
  have hacts : Acts pool ⟨bootp 2 [53, 1, 1, 255], 68, true⟩ := by
    left
    intro hnone
    rw [hnone] at hlen
    cases hlen
  obtain ⟨hboot, -⟩ := (h (bootp 2 [53, 1, 1, 255]) (by decide +kernel) 2 pool 68 true).1 hacts
  exact absurd hboot (by decide +kernel)

end Lrndis.Dhcp
