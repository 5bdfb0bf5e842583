import Lrndis.Dhcp.Refinement
import Lrndis.Lib.Run

/-!
# The DHCP server over runs

One message touches the entries of its own client only. But the entry of the client is
freed before its request is looked at: a refused request loses it.
-/

namespace Lrndis.Dhcp

open Mem Run

variable {n : Nat}

/-! ## A table of two entries -/

def pool : Server 2 where
  dhcpData := Buffer.zero _
  config := { addr := 0x0107A8C0, dns := 0x0107A8C0, domain := none }
  entries := fun i =>
    { mac := Buffer.zero 6, addr := if i = 0 then 0x0207A8C0 else 0x0307A8C0
      subnet := 0x00FFFFFF, lease := 86400 }

def datagram (c type : UInt8) (addr : UInt32) (alloc : Bool) : Datagram where
  payload := List.replicate DhcpType.chaddr 0 ++ List.replicate 6 c ++ List.replicate 206 0 ++
    [53, 1, type] ++ [dhcpIpaddress, 4] ++ bytes32 addr ++ [dhcpEnd]
  port := 68
  alloc := alloc

def macOf (c : UInt8) : Mac := ⟨List.replicate 6 c, by simp⟩

/-! ## What a message can do -/

def client (s : Server n) (d : Datagram) : Mac := chaddr (received s d).dhcpData.bytes

def typeOf (s : Server n) (d : Datagram) : UInt8 := messageType (received s d).dhcpData.bytes

def wanted (s : Server n) (d : Datagram) : Option UInt32 :=
  requestedAddr (received s d).dhcpData.bytes

theorem discover_cases (s : Server n) (d : Datagram) :
    (handleDiscover s d).1.entries = s.entries ∧
      (datagrams (handleDiscover s d).2 = [] ∨
        ∃ i, ((s.entries i).mac = chaddr s.dhcpData.bytes ∨
            (s.entries i).mac = Buffer.zero 6) ∧
          datagrams (handleDiscover s d).2 =
            [(fillReply s.dhcpData s.config (s.entries i) (s.entries i).addr dhcpOffer).bytes]) := by
  unfold handleDiscover
  cases h : (entryByMac s.entries (chaddr s.dhcpData.bytes)).or (vacantAddress s.entries) with
  | none => exact ⟨rfl, Or.inl rfl⟩
  | some i =>
    have hi : (s.entries i).mac = chaddr s.dhcpData.bytes ∨
        (s.entries i).mac = Buffer.zero 6 := by
      rcases Option.or_eq_some_iff.mp h with h | ⟨-, h⟩
      · exact Or.inl (entryByMac_some h)
      · exact Or.inr (vacantAddress_some h)
    simp only
    split
    · exact ⟨rfl, Or.inr ⟨i, hi, rfl⟩⟩
    · exact ⟨rfl, Or.inl rfl⟩

/-- The entry that a request is granted: it is looked up after the client's own entry
was freed. -/
def grants (s : Server n) (ip : UInt32) (alloc : Bool) : Option (Fin n) :=
  let entries := freeClient s.entries (chaddr s.dhcpData.bytes)
  (entryByIp entries ip).filter fun i => isVacant (entries i) && alloc

theorem request_ignored (s : Server n) (d : Datagram) (h : requestedAddr s.dhcpData.bytes = none) :
    handleRequest s d = (s, []) := by
  unfold handleRequest
  rw [h]

theorem request_spec (s : Server n) (d : Datagram) (ip : UInt32)
    (h : requestedAddr s.dhcpData.bytes = some ip) :
    let entries := freeClient s.entries (chaddr s.dhcpData.bytes)
    match grants s ip d.alloc with
    | none => (handleRequest s d).1.entries = entries ∧ datagrams (handleRequest s d).2 = []
    | some i => (handleRequest s d).1.entries = setMac entries i (chaddr s.dhcpData.bytes) ∧
        datagrams (handleRequest s d).2 =
          [(fillReply s.dhcpData s.config (entries i) ip dhcpAck).bytes] := by
  unfold handleRequest grants
  rw [h]
  simp only
  cases hip : entryByIp (freeClient s.entries (chaddr s.dhcpData.bytes)) ip with
  | none => exact ⟨rfl, rfl⟩
  | some i =>
    simp only
    by_cases hv : isVacant (freeClient s.entries (chaddr s.dhcpData.bytes) i) = true
    · cases ha : d.alloc with
      | true => simp [Option.filter, hv, fillReply_chaddr, datagrams]
      | false => simp [Option.filter, hv, datagrams]
    · simp [Option.filter, hv, datagrams]

theorem grants_some {s : Server n} {ip : UInt32} {alloc : Bool} {i : Fin n}
    (h : grants s ip alloc = some i) :
    (s.entries i).addr = ip ∧ alloc = true ∧
      (freeClient s.entries (chaddr s.dhcpData.bytes) i).mac = Buffer.zero 6 := by
  obtain ⟨hip, hv⟩ := Option.filter_eq_some_iff.mp h
  rw [Bool.and_eq_true, isVacant_iff] at hv
  have haddr := entryByIp_some hip
  rw [((freeClient_confined (chaddr s.dhcpData.bytes) s.entries).config i).1] at haddr
  exact ⟨haddr, hv.2, hv.1⟩

theorem request_confined (s : Server n) (d : Datagram) :
    Confined (chaddr s.dhcpData.bytes) s.entries (handleRequest s d).1.entries := by
  cases h : requestedAddr s.dhcpData.bytes with
  | none =>
    rw [request_ignored s d h]
    exact Confined.refl _ _
  | some ip =>
    have hfree := freeClient_confined (chaddr s.dhcpData.bytes) s.entries
    have hspec := request_spec s d ip h
    simp only at hspec
    split at hspec
    · rw [hspec.1]
      exact hfree
    · rename_i i hi
      rw [hspec.1]
      refine hfree.trans (setMac_confined _ _ _ i ?_ (Or.inl rfl))
      exact Or.inl (grants_some hi).2.2

/-! ## One datagram -/

theorem step_discover (s : Server n) (d : Datagram) (h : typeOf s d = dhcpDiscover) :
    (udpRecvProc s d).1 = (handleDiscover (received s d) d).1 ∧
      datagrams (udpRecvProc s d).2 = datagrams (handleDiscover (received s d) d).2 := by
  unfold typeOf at h
  unfold udpRecvProc
  simp [h, datagrams]

theorem step_request (s : Server n) (d : Datagram) (h : typeOf s d = dhcpRequest) :
    (udpRecvProc s d).1 = (handleRequest (received s d) d).1 ∧
      datagrams (udpRecvProc s d).2 = datagrams (handleRequest (received s d) d).2 := by
  unfold typeOf at h
  unfold udpRecvProc
  simp [h, datagrams, dhcpRequest, dhcpDiscover]

theorem step_unanswered (s : Server n) (d : Datagram) (h1 : typeOf s d ≠ dhcpDiscover)
    (h3 : typeOf s d = dhcpRequest → wanted s d = none) :
    udpRecvProc s d = (received s d, [.free .arg]) := by
  unfold typeOf at h1 h3
  unfold udpRecvProc
  simp only [if_neg h1]
  split
  · rename_i ht
    rw [request_ignored _ d (h3 ht)]
    rfl
  · rfl

theorem step_other (s : Server n) (d : Datagram) (h1 : typeOf s d ≠ dhcpDiscover)
    (h3 : typeOf s d ≠ dhcpRequest) :
    (udpRecvProc s d).1.entries = s.entries ∧ datagrams (udpRecvProc s d).2 = [] := by
  rw [step_unanswered s d h1 fun ht => absurd ht h3]
  exact ⟨rfl, rfl⟩

theorem step_entries (s : Server n) (d : Datagram) (h : typeOf s d ≠ dhcpRequest) :
    (udpRecvProc s d).1.entries = s.entries := by
  rcases eq_or_ne (typeOf s d) dhcpDiscover with h1 | h1
  · rw [(step_discover s d h1).1, (discover_cases (received s d) d).1]
    rfl
  · exact (step_other s d h1 h).1

/-! ### Requests -/

theorem step_ignored {s : Server n} {d : Datagram} (h3 : typeOf s d = dhcpRequest)
    (hip : wanted s d = none) :
    (udpRecvProc s d).1.entries = s.entries ∧ datagrams (udpRecvProc s d).2 = [] := by
  rw [step_unanswered s d (by rw [h3]; decide) fun _ => hip]
  exact ⟨rfl, rfl⟩

theorem step_refused {s : Server n} {d : Datagram} {ip : UInt32} (h3 : typeOf s d = dhcpRequest)
    (hip : wanted s d = some ip) (hno : grants (received s d) ip d.alloc = none) :
    (udpRecvProc s d).1.entries = freeClient s.entries (client s d) ∧
      datagrams (udpRecvProc s d).2 = [] := by
  obtain ⟨hstate, hdata⟩ := step_request s d h3
  have hspec := request_spec (received s d) d ip hip
  rw [hno] at hspec
  rw [hstate, hdata]
  exact hspec

theorem step_granted {s : Server n} {d : Datagram} {ip : UInt32} {i : Fin n}
    (h3 : typeOf s d = dhcpRequest) (hip : wanted s d = some ip)
    (hi : grants (received s d) ip d.alloc = some i) :
    let entries := freeClient s.entries (client s d)
    (udpRecvProc s d).1.entries = setMac entries i (client s d) ∧
      datagrams (udpRecvProc s d).2 =
        [(fillReply (received s d).dhcpData s.config (entries i) ip dhcpAck).bytes] := by
  intro entries
  obtain ⟨hstate, hdata⟩ := step_request s d h3
  have hspec := request_spec (received s d) d ip hip
  rw [hi] at hspec
  rw [hstate, hdata]
  exact hspec

theorem step_confined (s : Server n) (d : Datagram) :
    Confined (client s d) s.entries (udpRecvProc s d).1.entries := by
  rcases eq_or_ne (typeOf s d) dhcpRequest with h3 | h3
  · rw [(step_request s d h3).1]
    exact request_confined (received s d) d
  · rw [step_entries s d h3]
    exact Confined.refl _ _

theorem step_reply (s : Server n) (d : Datagram) (data : List UInt8)
    (h : data ∈ datagrams (udpRecvProc s d).2) :
    ∃ i, (s.entries i).addr = word32At data DhcpType.yiaddr ∧
      ((s.entries i).mac = Buffer.zero 6 ∨ (s.entries i).mac = client s d) := by
  rcases eq_or_ne (typeOf s d) dhcpDiscover with h1 | h1
  · rw [(step_discover s d h1).2] at h
    rcases (discover_cases (received s d) d).2 with hno | ⟨i, hi, hreply⟩
    · rw [hno] at h
      simp at h
    · rw [hreply, List.mem_singleton] at h
      rw [h, fillReply_yiaddr]
      exact ⟨i, rfl, hi.symm⟩
  · rcases eq_or_ne (typeOf s d) dhcpRequest with h3 | h3
    · cases hip : wanted s d with
      | none =>
        rw [(step_ignored h3 hip).2] at h
        simp at h
      | some ip =>
        cases hi : grants (received s d) ip d.alloc with
        | none =>
          rw [(step_refused h3 hip hi).2] at h
          simp at h
        | some i =>
          obtain ⟨haddr, -, hvacant⟩ := grants_some hi
          rw [(step_granted h3 hip hi).2, List.mem_singleton] at h
          rw [h, fillReply_yiaddr]
          exact ⟨i, haddr, freeClient_vacant hvacant⟩
    · rw [(step_other s d h1 h3).2] at h
      simp at h

/-- Handling a datagram touches the entries of its own client and vacant ones only, and
no reply carries the address of another client. -/
theorem client_isolated (s : Server n) (d : Datagram)
    (hinj : Function.Injective fun i => (s.entries i).addr) :
    let m := client s d
    let after := (udpRecvProc s d).1.entries
    (∀ i, (s.entries i).mac ≠ Buffer.zero 6 → (s.entries i).mac ≠ m → after i = s.entries i) ∧
    (∀ i, (after i).addr = (s.entries i).addr ∧ (after i).subnet = (s.entries i).subnet ∧
      (after i).lease = (s.entries i).lease) ∧
    (∀ i, (after i).mac = (s.entries i).mac ∨ (after i).mac = m ∨
      (after i).mac = Buffer.zero 6) ∧
    (typeOf s d ≠ dhcpRequest → after = s.entries) ∧
    (∀ data ∈ datagrams (udpRecvProc s d).2, ∀ i,
      (s.entries i).addr = word32At data DhcpType.yiaddr →
        (s.entries i).mac = Buffer.zero 6 ∨ (s.entries i).mac = m) := by
  intro m after
  have hconf : Confined m s.entries after := step_confined s d
  refine ⟨?_, hconf.config, ?_, step_entries s d, ?_⟩
  · intro i hzero hother
    rcases hconf i with hi | ⟨hown | hown, -⟩
    · exact hi
    · exact absurd hown hzero
    · exact absurd hown hother
  · intro i
    rcases hconf i with hi | ⟨-, x, hx, hi⟩
    · exact Or.inl (by rw [hi])
    · rw [hi]
      exact Or.inr hx
  · intro data hdata i hi
    obtain ⟨j, hj, hown⟩ := step_reply s d data hdata
    rw [hinj (hi.trans hj.symm)]
    exact hown

def pool2 : Server 2 := { pool with entries := setMac pool.entries 0 (macOf 2) }

theorem client_isolated_pool :
    (udpRecvProc pool2 (datagram 1 3 0x0307A8C0 true)).1.entries 0 = pool2.entries 0 ∧
      (udpRecvProc pool2 (datagram 1 1 0 true)).1.entries = pool2.entries :=
  ⟨(client_isolated pool2 (datagram 1 3 0x0307A8C0 true) (by decide +kernel)).1 0
      (by decide +kernel) (by decide +kernel),
    (client_isolated pool2 (datagram 1 1 0 true) (by decide +kernel)).2.2.2.1 (by decide +kernel)⟩

/-! ## Exclusive addresses -/

/-- The request names an entry that is vacant or the client's own, and there is a pbuf
for the ACK. -/
def Answerable (s : Server n) (d : Datagram) : Prop :=
  d.alloc = true ∧ ∃ i, wanted s d = some (s.entries i).addr ∧
    ((s.entries i).mac = Buffer.zero 6 ∨ (s.entries i).mac = client s d)

/-- A client with an entry that asks for an address asks for one that it can get, and the
zero MAC, which marks an entry as vacant, gets nothing. -/
def Good (s : Server n) (d : Datagram) : Prop :=
  typeOf s d = dhcpRequest →
    if client s d = Buffer.zero 6 then ¬ Answerable s d
    else (wanted s d).isSome → (∃ i, (s.entries i).mac = client s d) → Answerable s d

instance (s : Server n) (d : Datagram) : Decidable (Answerable s d) := by
  unfold Answerable; infer_instance

instance (s : Server n) (d : Datagram) : Decidable (Good s d) := by
  unfold Good; infer_instance

structure Inv (s : Server n) (out : List LwipCall) : Prop where
  distinct : Function.Injective fun i => (s.entries i).addr
  unique : Lease.Unique (owner s.entries)
  agrees : Lease.Agrees (fun i => (s.entries i).addr) (owner s.entries) (held out)

theorem inv_quiet {s s' : Server n} {out more : List LwipCall} (h : Inv s out)
    (haddr : (fun i => (s'.entries i).addr) = fun i => (s.entries i).addr)
    (howner : owner s'.entries = owner s.entries) (hacks : acks more = []) :
    Inv s' (out ++ more) := by
  refine ⟨?_, ?_, ?_⟩
  · rw [haddr]
    exact h.distinct
  · rw [howner]
    exact h.unique
  · rw [haddr, howner, held_quiet out more hacks]
    exact h.agrees

theorem acks_of_none {out : List LwipCall} (h : datagrams out = []) : acks out = [] := by
  rw [acks, h, List.filterMap_nil]

theorem ack_reply (data : Buffer DhcpType.size) (c : Config) (e : Entry) (ip : UInt32) :
    ackOf (fillReply data c e ip dhcpAck).bytes = some ⟨chaddr data.bytes, ip⟩ := by
  unfold ackOf
  rw [if_pos (fillReply_type _ _ _ _ _), fillReply_chaddr, fillReply_yiaddr]

theorem offer_reply (data : Buffer DhcpType.size) (c : Config) (e : Entry) (ip : UInt32) :
    ackOf (fillReply data c e ip dhcpOffer).bytes = none := by
  unfold ackOf
  rw [fillReply_type, if_neg (by decide)]

theorem step_no_ack (s : Server n) (d : Datagram) (h : typeOf s d ≠ dhcpRequest) :
    acks (udpRecvProc s d).2 = [] := by
  rcases eq_or_ne (typeOf s d) dhcpDiscover with h1 | h1
  · rw [acks, (step_discover s d h1).2]
    rcases (discover_cases (received s d) d).2 with hno | ⟨i, -, hreply⟩
    · rw [hno, List.filterMap_nil]
    · rw [hreply]
      simp [offer_reply]
  · exact acks_of_none (step_other s d h1 h).2

theorem step_ack {s : Server n} {d : Datagram} {ip : UInt32} {i : Fin n}
    (h3 : typeOf s d = dhcpRequest) (hip : wanted s d = some ip)
    (hi : grants (received s d) ip d.alloc = some i) :
    acks (udpRecvProc s d).2 = [⟨client s d, ip⟩] := by
  rw [acks, (step_granted h3 hip hi).2, List.filterMap_cons_some (ack_reply _ _ _ _),
    List.filterMap_nil]
  rfl

theorem answerable_of_grants {s : Server n} {d : Datagram} {ip : UInt32} {i : Fin n}
    (hip : wanted s d = some ip) (hi : grants (received s d) ip d.alloc = some i) :
    Answerable s d := by
  obtain ⟨haddr, halloc, hvacant⟩ := grants_some hi
  refine ⟨halloc, i, ?_, freeClient_vacant hvacant⟩
  rw [hip, ← haddr]
  rfl

theorem grants_of_answerable {s : Server n} {d : Datagram}
    (hinj : Function.Injective fun i => (s.entries i).addr) (hu : Lease.Unique (owner s.entries))
    (hm : client s d ≠ Buffer.zero 6) (hans : Answerable s d) :
    ∃ i, wanted s d = some (s.entries i).addr ∧
      grants (received s d) (s.entries i).addr d.alloc = some i := by
  obtain ⟨halloc, i, hip, hown⟩ := hans
  refine ⟨i, hip, Option.filter_eq_some_iff.mpr ⟨?_, ?_⟩⟩
  · have hfree := freeClient_confined (client s d) s.entries
    exact (entryByIp_congr (fun j => (hfree.config j).1) _).trans (entryByIp_of_addr hinj i)
  · rw [halloc, Bool.and_true, isVacant_iff]
    apply (owner_eq_none _ i).mp
    apply (congrFun (owner_freeClient s.entries (client s d) hm hu) i).trans
    unfold Lease.release
    rcases hown with hzero | hclient
    · rw [(owner_eq_none _ _).mpr hzero]
      simp
    · rw [if_pos ((owner_eq_some _ _ _).mpr ⟨hclient, hm⟩)]

theorem refused_keeps {s : Server n} {d : Datagram} {out : List LwipCall} {ip : UInt32}
    (h : Inv s out) (h3 : typeOf s d = dhcpRequest) (hgood : Good s d) (hip : wanted s d = some ip)
    (hno : grants (received s d) ip d.alloc = none) :
    freeClient s.entries (client s d) = s.entries := by
  have hgood := hgood h3
  rcases eq_or_ne (client s d) (Buffer.zero 6) with hm | hm
  · rw [hm, freeClient_zero]
  · apply freeClient_unbound
    intro i hbound
    rw [if_neg hm] at hgood
    have hans : Answerable s d := hgood (by rw [hip]; rfl) ⟨i, hbound⟩
    obtain ⟨j, hj, hg⟩ := grants_of_answerable h.distinct h.unique hm hans
    rw [hip] at hj
    rw [← Option.some.inj hj, hno] at hg
    exact absurd hg (by simp)

theorem inv_granted {s : Server n} {d : Datagram} {out : List LwipCall} {ip : UInt32} {i : Fin n}
    (h : Inv s out) (hm : client s d ≠ Buffer.zero 6)
    (hi : grants (received s d) ip d.alloc = some i)
    (hentries : (udpRecvProc s d).1.entries =
      setMac (freeClient s.entries (client s d)) i (client s d))
    (hack : acks (udpRecvProc s d).2 = [⟨client s d, ip⟩]) :
    Inv (udpRecvProc s d).1 (out ++ (udpRecvProc s d).2) := by
  have haddr := (step_confined s d).addr
  obtain ⟨hip, -, hvacant⟩ := grants_some hi
  have howner : owner (udpRecvProc s d).1.entries =
      Lease.grant (owner s.entries) (client s d) i := by
    rw [hentries, owner_grant hm h.unique]
  have hfree : owner s.entries i = none ∨ owner s.entries i = some (client s d) := by
    rcases freeClient_vacant hvacant with hz | hc
    · exact Or.inl ((owner_eq_none _ _).mpr hz)
    · exact Or.inr ((owner_eq_some _ _ _).mpr ⟨hc, hm⟩)
  rw [← hip] at hack
  refine ⟨?_, ?_, ?_⟩
  · rw [haddr]
    exact h.distinct
  · rw [howner]
    exact h.unique.grant _ _
  · rw [haddr, howner, held_ack out _ _ hack]
    exact h.agrees.grant _ _ hfree

theorem inv_request (s : Server n) (d : Datagram) (out : List LwipCall) (h : Inv s out)
    (h3 : typeOf s d = dhcpRequest) (hgood : Good s d) :
    Inv (udpRecvProc s d).1 (out ++ (udpRecvProc s d).2) := by
  have haddr := (step_confined s d).addr
  cases hip : wanted s d with
  | none =>
    obtain ⟨hentries, hdata⟩ := step_ignored h3 hip
    exact inv_quiet h haddr (by rw [hentries]) (acks_of_none hdata)
  | some ip =>
    cases hi : grants (received s d) ip d.alloc with
    | none =>
      obtain ⟨hentries, hdata⟩ := step_refused h3 hip hi
      rw [refused_keeps h h3 hgood hip hi] at hentries
      exact inv_quiet h haddr (by rw [hentries]) (acks_of_none hdata)
    | some i =>
      have hm : client s d ≠ Buffer.zero 6 := by
        intro hm
        have hno := hgood h3
        rw [if_pos hm] at hno
        exact hno (answerable_of_grants hip hi)
      exact inv_granted h hm hi (step_granted h3 hip hi).1 (step_ack h3 hip hi)

theorem inv_step (s : Server n) (d : Datagram) (out : List LwipCall) (h : Inv s out)
    (hgood : Good s d) : Inv (udpRecvProc s d).1 (out ++ (udpRecvProc s d).2) := by
  rcases eq_or_ne (typeOf s d) dhcpRequest with h3 | h3
  · exact inv_request s d out h h3 hgood
  · exact inv_quiet h (step_confined s d).addr (by rw [step_entries s d h3])
      (step_no_ack s d h3)

theorem inv_vacant (s : Server n) (hinj : Function.Injective fun i => (s.entries i).addr)
    (hzero : ∀ i, (s.entries i).mac = Buffer.zero 6) : Inv s [] := by
  have hnone := owner_vacant hzero
  exact ⟨hinj, Lease.Unique.init hnone, Lease.Agrees.init _ hnone⟩

/-- As long as no client with an entry is refused the address that it asks for, and the zero
MAC is granted nothing, no two clients hold the same address. -/
theorem addresses_exclusive (s : Server n) (hinj : Function.Injective fun i => (s.entries i).addr)
    (hzero : ∀ i, (s.entries i).mac = Buffer.zero 6) (ds : List Datagram)
    (hgood : Along udpRecvProc Good s ds) : Exclusive (run udpRecvProc s ds).2 := by
  have h := history_along (fun s out d h hg => inv_step s d out h hg)
    (inv_vacant s hinj hzero) hgood
  intro m m' a hm hm'
  exact h.agrees.exclusive h.distinct m m' a hm hm'

def plainRequest (c : UInt8) : Datagram where
  payload := (datagram c dhcpRequest 0 true).payload.take 243 ++ [dhcpEnd]
  port := 68
  alloc := true

theorem addresses_exclusive_pool :
    let ds := [datagram 1 1 0 true, datagram 1 3 0x0207A8C0 true, plainRequest 1,
      datagram 2 3 0x0307A8C0 true]
    Exclusive (run udpRecvProc pool ds).2 ∧
      held (run udpRecvProc pool ds).2 (macOf 1) = some 0x0207A8C0 ∧
      held (run udpRecvProc pool ds).2 (macOf 2) = some 0x0307A8C0 := by
  refine ⟨addresses_exclusive pool ?_ ?_ _ ?_, ?_, ?_⟩
  · decide +kernel
  · decide +kernel
  · decide +kernel
  · decide +kernel
  · decide +kernel

/-- A refused request, a missing pbuf and the zero MAC each lose a lease, and the server
gives the address to the next client. -/
theorem address_shared :
    (¬ ∀ ds, Exclusive (run udpRecvProc pool ds).2) ∧
    acks (run udpRecvProc pool [datagram 1 3 0x0207A8C0 true, datagram 1 3 0x0907A8C0 true,
      datagram 2 3 0x0207A8C0 true]).2 = [⟨macOf 1, 0x0207A8C0⟩, ⟨macOf 2, 0x0207A8C0⟩] ∧
    acks (run udpRecvProc pool [datagram 1 3 0x0207A8C0 true, datagram 1 3 0x0207A8C0 false,
      datagram 2 3 0x0207A8C0 true]).2 = [⟨macOf 1, 0x0207A8C0⟩, ⟨macOf 2, 0x0207A8C0⟩] ∧
    acks (run udpRecvProc pool [datagram 0 3 0x0207A8C0 true, datagram 2 3 0x0207A8C0 true]).2 =
      [⟨macOf 0, 0x0207A8C0⟩, ⟨macOf 2, 0x0207A8C0⟩] := by
  have hacks : acks (run udpRecvProc pool [datagram 1 3 0x0207A8C0 true,
      datagram 1 3 0x0907A8C0 true, datagram 2 3 0x0207A8C0 true]).2 =
        [⟨macOf 1, 0x0207A8C0⟩, ⟨macOf 2, 0x0207A8C0⟩] := by
    decide +kernel
  refine ⟨fun h => ?_, hacks, by decide +kernel, by decide +kernel⟩
  have hshared := h _ (macOf 1) (macOf 2) 0x0207A8C0 (by rw [held, hacks]; decide +kernel)
    (by rw [held, hacks]; decide +kernel)
  exact absurd hshared (by decide)

end Lrndis.Dhcp
