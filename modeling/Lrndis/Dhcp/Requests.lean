import Lrndis.Dhcp.Pool
import Lrndis.Dhcp.Stale

/-!
# Refused and repeated requests

A request first frees the entry of its client. Where it ends without an ACK, the entry
stays free; where it is handled again, there is nothing left to free but what it was
granted.
-/

namespace Lrndis.Dhcp

open Mem

variable {n : Nat}

/-! ## Without an ACK -/

theorem freeClient_eq_iff (entries : Table n) (m : Mac) :
    freeClient entries m = entries ↔ m = Buffer.zero 6 ∨ ∀ i, (entries i).mac ≠ m := by
  constructor
  · intro h
    apply or_iff_not_imp_right.mpr
    intro hbound
    cases hm : entryByMac entries m with
    | none => exact absurd (entryByMac_none hm) hbound
    | some i =>
      have hi := congrFun h i
      rw [freeClient, hm] at hi
      simp only [freeEntry, setMac_self] at hi
      rw [← entryByMac_some hm, ← hi]
  · rintro (rfl | hunbound)
    · exact freeClient_zero entries
    · exact freeClient_unbound hunbound

/-- A request that is not answered leaves the table as it is exactly if no address can be
read from it, or its client has no entry to lose. -/
theorem unanswered_keeps_iff (s : Server n) (d : Datagram) (h3 : typeOf s d = dhcpRequest)
    (hno : acks (udpRecvProc s d).2 = []) :
    (udpRecvProc s d).1.entries = s.entries ↔
      wanted s d = none ∨ client s d = Buffer.zero 6 ∨
        ∀ i, (s.entries i).mac ≠ client s d := by
  cases hip : wanted s d with
  | none =>
    rw [(step_ignored h3 hip).1]
    exact iff_of_true rfl (Or.inl rfl)
  | some ip =>
    cases hi : grants (received s d) ip d.alloc with
    | some i =>
      rw [step_ack h3 hip hi] at hno
      exact absurd hno (List.cons_ne_nil _ _)
    | none =>
      rw [(step_refused h3 hip hi).1, freeClient_eq_iff]
      simp

theorem unanswered_keeps_pool :
    (udpRecvProc pool2 (datagram 1 3 0x0207A8C0 true)).1.entries = pool2.entries :=
  (unanswered_keeps_iff pool2 (datagram 1 3 0x0207A8C0 true) (by decide +kernel)
    (by decide +kernel)).mpr (Or.inr (Or.inr (by decide +kernel)))

/-- Client 2 loses its entry over an address that is in no entry, over one that client 1
has, and over a missing pbuf. -/
theorem unanswered_loses :
    let s := { pool2 with entries := setMac pool2.entries 1 (macOf 1) }
    (¬ ∀ d, typeOf s d = dhcpRequest → acks (udpRecvProc s d).2 = [] →
      (udpRecvProc s d).1.entries = s.entries) ∧
    (s.entries 0).mac = macOf 2 ∧
    ∀ d ∈ [datagram 2 3 0x0907A8C0 true, datagram 2 3 0x0307A8C0 true,
        datagram 2 3 0x0207A8C0 false],
      acks (udpRecvProc s d).2 = [] ∧ ((udpRecvProc s d).1.entries 0).mac = Buffer.zero 6 := by
  intro s
  have hbound : (s.entries 0).mac = macOf 2 := by decide +kernel
  have hlost : ∀ d ∈ [datagram 2 3 0x0907A8C0 true, datagram 2 3 0x0307A8C0 true,
      datagram 2 3 0x0207A8C0 false],
      acks (udpRecvProc s d).2 = [] ∧ ((udpRecvProc s d).1.entries 0).mac = Buffer.zero 6 := by
    decide +kernel
  refine ⟨fun h => ?_, hbound, hlost⟩
  obtain ⟨hno, hfree⟩ := hlost (datagram 2 3 0x0907A8C0 true) List.mem_cons_self
  rw [h _ (by decide +kernel) hno, hbound] at hfree
  exact absurd hfree (by decide +kernel)

/-! ## A request that comes twice -/

theorem freeClient_granted {entries : Table n} {m : Mac} {i : Fin n}
    (hu : Lease.Unique (owner entries)) (hi : (freeClient entries m i).mac = Buffer.zero 6) :
    freeClient (setMac (freeClient entries m) i m) m = freeClient entries m := by
  rcases eq_or_ne m (Buffer.zero 6) with rfl | hm
  · rw [freeClient_zero, setMac_vacant hi]
  · have hgrant := owner_grant hm hu i
    have hunique : Lease.Unique (owner (setMac (freeClient entries m) i m)) := by
      rw [hgrant]
      exact hu.grant m i
    have hself : owner (setMac (freeClient entries m) i m) i = some m :=
      (owner_eq_some _ _ _).mpr ⟨congrArg Entry.mac (setMac_self _ _ _), hm⟩
    rw [freeClient]
    cases hj : entryByMac (setMac (freeClient entries m) i m) m with
    | none => exact absurd (congrArg Entry.mac (setMac_self _ _ _)) (entryByMac_none hj i)
    | some j =>
      have hown : owner (setMac (freeClient entries m) i m) j = some m :=
        (owner_eq_some _ _ _).mpr ⟨entryByMac_some hj, hm⟩
      obtain rfl := hunique j i m hown hself
      funext k
      simp only [freeEntry]
      rcases eq_or_ne k j with rfl | hk
      · rw [setMac_self, setMac_self, ← hi]
      · rw [setMac_other _ _ _ _ hk, setMac_other _ _ _ _ hk]

theorem freeClient_freed {entries : Table n} {m : Mac} (hu : Lease.Unique (owner entries)) :
    freeClient (freeClient entries m) m = freeClient entries m := by
  apply (freeClient_eq_iff _ m).mpr
  apply or_iff_not_imp_left.mpr
  intro hm i hi
  have howner := congrFun (owner_freeClient entries m hm hu) i
  rw [(owner_eq_some _ _ _).mpr ⟨hi, hm⟩] at howner
  unfold Lease.release at howner
  split at howner
  · cases howner
  · rename_i hne
    exact hne howner.symm

/-- What a request does depends on the table only through what is left of it without the
entry of the client. -/
theorem request_congr {s s' : Server n} {d : Datagram} {ip : UInt32}
    (hip : requestedAddr s.dhcpData.bytes = some ip) (hdata : s'.dhcpData = s.dhcpData)
    (hconfig : s'.config = s.config)
    (hfree : freeClient s'.entries (chaddr s.dhcpData.bytes) =
      freeClient s.entries (chaddr s.dhcpData.bytes)) :
    handleRequest s' d = handleRequest s d := by
  unfold handleRequest
  simp only [hdata, hip, hconfig, hfree]

theorem step_config (s : Server n) (d : Datagram) : (udpRecvProc s d).1.config = s.config := by
  unfold udpRecvProc
  simp only
  split
  · unfold handleDiscover
    split
    · rfl
    · simp only
      split <;> rfl
  split
  · unfold handleRequest
    split
    · rfl
    · simp only
      split
      · rfl
      split
      · rfl
      split <;> rfl
  · rfl

theorem udpRecvProc_request {s : Server n} {d : Datagram} (h3 : typeOf s d = dhcpRequest) :
    udpRecvProc s d = ((handleRequest (received s d) d).1,
      (handleRequest (received s d) d).2 ++ [.free .arg]) := by
  unfold typeOf at h3
  unfold udpRecvProc
  simp [h3, dhcpRequest, dhcpDiscover]

theorem freeClient_step {s : Server n} {d : Datagram} {ip : UInt32}
    (hu : Lease.Unique (owner s.entries)) (h3 : typeOf s d = dhcpRequest)
    (hip : wanted s d = some ip) :
    freeClient (udpRecvProc s d).1.entries (client s d) =
      freeClient s.entries (client s d) := by
  cases hi : grants (received s d) ip d.alloc with
  | none =>
    rw [(step_refused h3 hip hi).1]
    exact freeClient_freed hu
  | some i =>
    rw [(step_granted h3 hip hi).1]
    exact freeClient_granted hu (grants_some hi).2.2

/-- Handled again, a request leaves everything as it was, and gets the same answer. -/
theorem request_repeated (s : Server n) (d : Datagram) (hu : Lease.Unique (owner s.entries))
    (hlen : DhcpType.size ≤ d.payload.length) (h3 : typeOf s d = dhcpRequest) :
    udpRecvProc (udpRecvProc s d).1 d = udpRecvProc s d := by
  have hdata : (received (udpRecvProc s d).1 d).dhcpData = (received s d).dhcpData :=
    received_full hlen
  have hconfig : (received (udpRecvProc s d).1 d).config = (received s d).config :=
    step_config s d
  have h3' : typeOf (udpRecvProc s d).1 d = dhcpRequest := by
    unfold typeOf at h3 ⊢
    rw [hdata, h3]
  have hsame : handleRequest (received (udpRecvProc s d).1 d) d =
      handleRequest (received s d) d := by
    cases hip : wanted s d with
    | none =>
      have hentries : (received (udpRecvProc s d).1 d).entries = (received s d).entries :=
        (step_ignored h3 hip).1
      have hreceived : received (udpRecvProc s d).1 d = received s d := by
        rw [Server.mk.injEq]
        exact ⟨hdata, hconfig, hentries⟩
      rw [hreceived]
    | some ip =>
      -- Freeing the entry again leads to the table that the first run started from.
      apply request_congr hip hdata hconfig
      exact freeClient_step hu h3 hip
  rw [udpRecvProc_request h3', hsame, ← udpRecvProc_request h3]

theorem request_repeated_pool :
    let d := { datagram 2 3 0x0307A8C0 true with
      payload := (datagram 2 3 0x0307A8C0 true).payload ++ List.replicate 266 0 }
    udpRecvProc (udpRecvProc pool2 d).1 d = udpRecvProc pool2 d ∧
      acks (udpRecvProc pool2 d).2 = [⟨macOf 2, 0x0307A8C0⟩] := by
  intro d
  have hunique : Lease.Unique (owner pool2.entries) := by
    unfold Lease.Unique
    decide +kernel
  exact ⟨request_repeated pool2 d hunique (by decide +kernel) (by decide +kernel),
    by decide +kernel⟩

end Lrndis.Dhcp
