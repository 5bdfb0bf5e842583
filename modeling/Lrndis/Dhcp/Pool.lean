import Lrndis.Dhcp.Proofs

/-!
# The pool of addresses

No client is bound to two entries, even where two entries have the same address. So the
pool is enough for as many clients as it has entries.
-/

namespace Lrndis.Dhcp

open Mem Run

variable {n : Nat}

/-! ## One entry for each client -/

/-- A request releases the client's entry, and may grant it one. The zero MAC owns nothing. -/
theorem request_owner (s : Server n) (d : Datagram) (hu : Lease.Unique (owner s.entries))
    (h3 : typeOf s d = dhcpRequest) :
    let after := (udpRecvProc s d).1.entries
    owner after = owner s.entries ∨ owner after = Lease.release (owner s.entries) (client s d) ∨
      ∃ i, owner after = Lease.grant (owner s.entries) (client s d) i := by
  intro after
  cases hip : wanted s d with
  | none => exact Or.inl (congrArg owner (step_ignored h3 hip).1)
  | some ip =>
    cases hi : grants (received s d) ip d.alloc with
    | none =>
      have hfreed : after = freeClient s.entries (client s d) := (step_refused h3 hip hi).1
      rcases eq_or_ne (client s d) (Buffer.zero 6) with hm | hm
      · rw [hfreed, hm, freeClient_zero]
        exact Or.inl rfl
      · rw [hfreed, owner_freeClient _ _ hm hu]
        exact Or.inr (Or.inl rfl)
    | some i =>
      have hset : after = setMac (freeClient s.entries (client s d)) i (client s d) :=
        (step_granted h3 hip hi).1
      have hvacant : (freeClient s.entries (client s d) i).mac = Buffer.zero 6 :=
        (grants_some hi).2.2
      rcases eq_or_ne (client s d) (Buffer.zero 6) with hm | hm
      · rw [hm] at hset hvacant
        rw [hset, setMac_vacant hvacant, freeClient_zero]
        exact Or.inl rfl
      · rw [hset, owner_grant hm hu]
        exact Or.inr (Or.inr ⟨i, rfl⟩)

theorem unique_step (s : Server n) (d : Datagram) (hu : Lease.Unique (owner s.entries)) :
    Lease.Unique (owner (udpRecvProc s d).1.entries) := by
  rcases eq_or_ne (typeOf s d) dhcpRequest with h3 | h3
  · rcases request_owner s d hu h3 with h | h | ⟨i, h⟩
    · rw [h]
      exact hu
    · rw [h]
      exact hu.release _
    · rw [h]
      exact hu.grant _ i
  · rw [step_entries s d h3]
    exact hu

/-- Whatever datagrams come, no client is bound to two entries. -/
theorem bindings_unique (s : Server n) (hzero : ∀ i, (s.entries i).mac = Buffer.zero 6)
    (ds : List Datagram) (i j : Fin n) :
    let entries := (run udpRecvProc s ds).1.entries
    (entries i).mac = (entries j).mac → (entries i).mac ≠ Buffer.zero 6 → i = j := by
  intro entries hij hne
  have hu : Lease.Unique (owner entries) :=
    invariant_run (I := fun s : Server n => Lease.Unique (owner s.entries)) unique_step
      (Lease.Unique.init (owner_vacant hzero)) ds
  apply hu i j (entries i).mac
  · exact (owner_eq_some _ _ _).mpr ⟨rfl, hne⟩
  · exact (owner_eq_some _ _ _).mpr ⟨hij.symm, hne⟩

theorem bindings_unique_pool :
    let entries := (run udpRecvProc pool [datagram 1 3 0x0207A8C0 true,
      datagram 1 3 0x0307A8C0 true]).1.entries
    (entries 1).mac = macOf 1 ∧ (entries 0).mac ≠ (entries 1).mac := by
  intro entries
  have hbound : (entries 1).mac = macOf 1 := by decide +kernel
  refine ⟨hbound, fun h => ?_⟩
  have hne : (entries 0).mac ≠ Buffer.zero 6 := by
    rw [h, hbound]
    decide
  exact absurd (bindings_unique pool (by decide +kernel) _ 0 1 h hne) (by decide)

/-! ## Room for every client -/

structure Served (S : Finset Mac) (s : Server n) : Prop where
  unique : Lease.Unique (owner s.entries)
  known : ∀ i m, owner s.entries i = some m → m ∈ S

theorem served_step (S : Finset Mac) (s : Server n) (d : Datagram) (h : Served S s)
    (hd : client s d ∈ S) : Served S (udpRecvProc s d).1 := by
  refine ⟨unique_step s d h.unique, ?_⟩
  intro i m hi
  obtain ⟨hmac, hne⟩ := (owner_eq_some _ _ _).mp hi
  rcases step_confined s d i with hsame | ⟨-, mac, hown | hzero, hnew⟩
  · rw [hsame] at hmac
    exact h.known i m ((owner_eq_some _ _ _).mpr ⟨hmac, hne⟩)
  · rw [hnew] at hmac
    rw [← hmac, hown]
    exact hd
  · rw [hnew] at hmac
    rw [← hmac] at hne
    exact absurd hzero hne

theorem served_vacant (S : Finset Mac) (s : Server n)
    (hzero : ∀ i, (s.entries i).mac = Buffer.zero 6) : Served S s := by
  refine ⟨Lease.Unique.init (owner_vacant hzero), ?_⟩
  intro i m hi
  rw [owner_vacant hzero] at hi
  simp at hi

theorem discover_offers (s : Server n) (d : Datagram) (halloc : d.alloc = true) (i : Fin n)
    (hi : owner s.entries i = none ∨ owner s.entries i = some (chaddr s.dhcpData.bytes)) :
    ∃ j, datagrams (handleDiscover s d).2 =
      [(fillReply s.dhcpData s.config (s.entries j) (s.entries j).addr dhcpOffer).bytes] := by
  have hsome : ((entryByMac s.entries (chaddr s.dhcpData.bytes)).or
      (vacantAddress s.entries)).isSome := by
    rw [Option.isSome_or, Bool.or_eq_true]
    rcases hi with hfree | hown
    · right
      rw [vacantAddress, List.find?_isSome]
      exact ⟨i, List.mem_finRange i, (isVacant_iff _).mpr ((owner_eq_none _ _).mp hfree)⟩
    · left
      rw [entryByMac, List.find?_isSome]
      refine ⟨i, List.mem_finRange i, ?_⟩
      simpa using ((owner_eq_some _ _ _).mp hown).1
  obtain ⟨j, hj⟩ := Option.isSome_iff_exists.mp hsome
  refine ⟨j, ?_⟩
  unfold handleDiscover
  rw [hj]
  simp [halloc, datagrams]

/-- As long as there are no more clients than entries, every DISCOVER for which there is a
pbuf is answered with an OFFER. -/
theorem discover_answered (s : Server n) (hzero : ∀ i, (s.entries i).mac = Buffer.zero 6)
    (S : Finset Mac) (hcard : S.card ≤ n) (ds : List Datagram) (d : Datagram)
    (hS : Along udpRecvProc (fun s d => client s d ∈ S) s (ds ++ [d])) :
    let t := (run udpRecvProc s ds).1
    typeOf t d = dhcpDiscover → d.alloc = true →
      ∃ reply, datagrams (udpRecvProc t d).2 = [reply] ∧ messageType reply = dhcpOffer ∧
        chaddr reply = client t d := by
  intro t h1 halloc
  obtain ⟨hbefore, hd, -⟩ := (along_append _ _ _ _ _).mp hS
  have hserved : Served S t :=
    invariant_along (served_step S) (served_vacant S s hzero) hbefore
  obtain ⟨i, hi⟩ := hserved.unique.exists_room S hserved.known
    (by rwa [Fintype.card_fin]) (client t d) hd
  obtain ⟨j, hj⟩ := discover_offers (received t d) d halloc i hi
  rw [(step_discover t d h1).2]
  exact ⟨_, hj, fillReply_type _ _ _ _ _, fillReply_chaddr _ _ _ _ _⟩

theorem discover_answered_pool :
    let t := (run udpRecvProc pool [datagram 1 3 0x0207A8C0 true, datagram 2 3 0x0307A8C0 true,
      datagram 1 3 0x0307A8C0 true]).1
    ∃ reply, datagrams (udpRecvProc t (datagram 1 1 0 true)).2 = [reply] ∧
      messageType reply = dhcpOffer ∧ chaddr reply = client t (datagram 1 1 0 true) :=
  discover_answered pool (by decide +kernel) {macOf 1, macOf 2} (by decide +kernel)
    [datagram 1 3 0x0207A8C0 true, datagram 2 3 0x0307A8C0 true, datagram 1 3 0x0307A8C0 true]
    (datagram 1 1 0 true) (by decide +kernel) (by decide +kernel) rfl

end Lrndis.Dhcp
