import Lrndis.Dhcp.Options
import Lrndis.Dhcp.Pool

/-!
# From the offer to the lease

The server does not write down what it offers. An offered address is still there for its
client because other clients can get it only with an ACK, and cannot get it at all if it
was the client's before.
-/

namespace Lrndis.Dhcp

open Mem Run

variable {n : Nat}

def Offered (s : Server n) (d : Datagram) (a : UInt32) : Prop :=
  typeOf s d = dhcpDiscover ∧
    ∃ reply ∈ datagrams (udpRecvProc s d).2,
      messageType reply = dhcpOffer ∧ word32At reply DhcpType.yiaddr = a

/-- A REQUEST that has `a` in option 50, all of it in the bytes of the datagram. -/
def Claims (s : Server n) (d : Datagram) (a : UInt32) : Prop :=
  typeOf s d = dhcpRequest ∧
    addrFrom (options d.payload) (options d.payload).length 0 = some a

/-! ## Datagrams of other clients -/

def OpenTo (m : Mac) (a : UInt32) (i : Fin n) (s : Server n) : Prop :=
  (s.entries i).addr = a ∧ ((s.entries i).mac = Buffer.zero 6 ∨ (s.entries i).mac = m)

def BoundTo (m : Mac) (a : UInt32) (i : Fin n) (s : Server n) : Prop :=
  (s.entries i).addr = a ∧ (s.entries i).mac = m

theorem step_addr (s : Server n) (d : Datagram) (i : Fin n) :
    ((udpRecvProc s d).1.entries i).addr = (s.entries i).addr :=
  ((step_confined s d).config i).1

theorem bound_step {m : Mac} {a : UInt32} {i : Fin n} {s : Server n} {d : Datagram}
    (hm : m ≠ Buffer.zero 6) (h : BoundTo m a i s) (hother : client s d ≠ m) :
    BoundTo m a i (udpRecvProc s d).1 := by
  rcases step_confined s d i with hsame | ⟨hzero | hown, -⟩
  · unfold BoundTo
    rw [hsame]
    exact h
  · exact absurd (h.2.symm.trans hzero) hm
  · exact absurd (hown.symm.trans h.2) hother

theorem freeClient_of_vacant {c : Mac} {entries : Table n} {i : Fin n}
    (h : (entries i).mac = Buffer.zero 6) : (freeClient entries c i).mac = Buffer.zero 6 := by
  unfold freeClient
  cases entryByMac entries c with
  | none => exact h
  | some k =>
    simp only [freeEntry]
    rcases eq_or_ne i k with rfl | hk
    · rw [setMac_self]
    · rw [setMac_other _ _ _ _ hk, h]

theorem vacant_step {a : UInt32} {i : Fin n} {s : Server n} {d : Datagram}
    (haddr : (s.entries i).addr = a) (h : (s.entries i).mac = Buffer.zero 6)
    (hno : ∀ ack ∈ acks (udpRecvProc s d).2, ack.addr ≠ a) :
    ((udpRecvProc s d).1.entries i).mac = Buffer.zero 6 := by
  rcases eq_or_ne (typeOf s d) dhcpRequest with h3 | h3
  · cases hip : wanted s d with
    | none => rw [(step_ignored h3 hip).1, h]
    | some ip =>
      cases hi : grants (received s d) ip d.alloc with
      | none =>
        rw [(step_refused h3 hip hi).1]
        exact freeClient_of_vacant h
      | some k =>
        have hk : i ≠ k := by
          rintro rfl
          rw [step_ack h3 hip hi] at hno
          apply hno _ (List.mem_singleton_self _)
          rw [← haddr]
          exact (grants_some hi).1.symm
        rw [(step_granted h3 hip hi).1, setMac_other _ _ _ _ hk]
        exact freeClient_of_vacant h
  · rw [step_entries s d h3, h]

theorem open_step {m : Mac} {a : UInt32} {i : Fin n} {s : Server n} {d : Datagram}
    (hm : m ≠ Buffer.zero 6) (h : OpenTo m a i s) (hother : client s d ≠ m)
    (hno : ∀ ack ∈ acks (udpRecvProc s d).2, ack.addr ≠ a) :
    OpenTo m a i (udpRecvProc s d).1 := by
  obtain ⟨haddr, hvacant | hbound⟩ := h
  · exact ⟨(step_addr s d i).trans haddr, Or.inl (vacant_step haddr hvacant hno)⟩
  · obtain ⟨haddr', hbound'⟩ := bound_step hm ⟨haddr, hbound⟩ hother
    exact ⟨haddr', Or.inr hbound'⟩

theorem open_run {m : Mac} {a : UInt32} {i : Fin n} {s : Server n} {ds : List Datagram}
    (hm : m ≠ Buffer.zero 6) (h : OpenTo m a i s)
    (hother : Along udpRecvProc (fun s d => client s d ≠ m) s ds)
    (hno : ∀ ack ∈ acks (run udpRecvProc s ds).2, ack.addr ≠ a) :
    OpenTo m a i (run udpRecvProc s ds).1 := by
  induction ds generalizing s with
  | nil => exact h
  | cons d ds ih =>
    rw [run_cons, acks_append] at hno
    have hfirst : ∀ ack ∈ acks (udpRecvProc s d).2, ack.addr ≠ a := fun ack hack =>
      hno ack (List.mem_append_left _ hack)
    apply ih (open_step hm h hother.1 hfirst) hother.2
    intro ack hack
    exact hno ack (List.mem_append_right _ hack)

theorem open_between {m : Mac} {a : UInt32} {s : Server n} {ds : List Datagram}
    (hm : m ≠ Buffer.zero 6) (hother : Along udpRecvProc (fun s d => client s d ≠ m) s ds)
    (hopen : ∃ i, OpenTo m a i s)
    (hfree : (∃ i, BoundTo m a i s) ∨ ∀ ack ∈ acks (run udpRecvProc s ds).2, ack.addr ≠ a) :
    ∃ i, OpenTo m a i (run udpRecvProc s ds).1 := by
  rcases hfree with ⟨i, hbound⟩ | hno
  · obtain ⟨haddr, hmac⟩ := invariant_along (C := fun s d => client s d ≠ m)
      (fun s d h hd => bound_step hm h hd) hbound hother
    exact ⟨i, haddr, Or.inr hmac⟩
  · obtain ⟨i, hi⟩ := hopen
    exact ⟨i, open_run hm hi hother hno⟩

theorem open_of_offered {s : Server n} {d : Datagram} {a : UInt32} (h : Offered s d a) :
    ∃ i, OpenTo (client s d) a i s := by
  obtain ⟨-, reply, hreply, -, hyiaddr⟩ := h
  obtain ⟨i, haddr, hown⟩ := step_reply s d reply hreply
  exact ⟨i, haddr.trans hyiaddr, hown⟩

/-! ## The request -/

theorem distinct_step (s : Server n) (d : Datagram)
    (h : Function.Injective fun i => (s.entries i).addr) :
    Function.Injective fun i => ((udpRecvProc s d).1.entries i).addr := by
  rw [(step_confined s d).addr]
  exact h

theorem wanted_of_claims {s : Server n} {d : Datagram} {a : UInt32} (h : Claims s d a) :
    wanted s d = some a := by
  obtain ⟨rest, hrest, hlen⟩ := received_options s d
  unfold wanted
  rw [requestedAddr_eq, hrest]
  exact addrFrom_append (by omega) h.2

theorem claim_granted {s : Server n} {d : Datagram} {a : UInt32} {i : Fin n}
    (hinj : Function.Injective fun i => (s.entries i).addr) (hu : Lease.Unique (owner s.entries))
    (hm : client s d ≠ Buffer.zero 6) (hopen : OpenTo (client s d) a i s) (hclaims : Claims s d a)
    (halloc : d.alloc = true) :
    ∃ reply, datagrams (udpRecvProc s d).2 = [reply] ∧ ackOf reply = some ⟨client s d, a⟩ ∧
      ∃ i, BoundTo (client s d) a i (udpRecvProc s d).1 := by
  have hip := wanted_of_claims hclaims
  have hans : Answerable s d := ⟨halloc, i, by rw [hip, hopen.1], hopen.2⟩
  obtain ⟨k, hk, hi⟩ := grants_of_answerable hinj hu hm hans
  obtain rfl := Option.some.inj (hip.symm.trans hk)
  obtain ⟨hentries, hdata⟩ := step_granted hclaims.1 hip hi
  refine ⟨_, hdata, ack_reply _ _ _ _, k, step_addr s d k, ?_⟩
  rw [hentries, setMac_self]

/-- An offered address can be claimed, unless another client got it in between. -/
theorem offer_honoured (s₀ : Server n) (hinj : Function.Injective fun i => (s₀.entries i).addr)
    (hzero : ∀ i, (s₀.entries i).mac = Buffer.zero 6) (before between : List Datagram)
    (disc req : Datagram) (a : UInt32) :
    let s := (run udpRecvProc s₀ before).1
    let s' := (udpRecvProc s disc).1
    let t := (run udpRecvProc s' between).1
    let m := client s disc
    m ≠ Buffer.zero 6 → Offered s disc a →
      Along udpRecvProc (fun s d => client s d ≠ m) s' between →
      ((∃ i, BoundTo m a i s) ∨ ∀ ack ∈ acks (run udpRecvProc s' between).2, ack.addr ≠ a) →
      client t req = m → Claims t req a → req.alloc = true →
        ∃ reply, datagrams (udpRecvProc t req).2 = [reply] ∧ ackOf reply = some ⟨m, a⟩ ∧
          ∃ i, BoundTo m a i (udpRecvProc t req).1 := by
  intro s s' t m hm hoffer hother hfree hclient hclaims halloc
  have ht : t = (run udpRecvProc s₀ (before ++ disc :: between)).1 := by
    rw [run_append, run_cons]
  have hinj' : Function.Injective fun i => (t.entries i).addr := by
    rw [ht]
    exact invariant_run (I := fun s : Server n => Function.Injective fun i => (s.entries i).addr)
      distinct_step hinj _
  have hu : Lease.Unique (owner t.entries) := by
    rw [ht]
    exact invariant_run (I := fun s : Server n => Lease.Unique (owner s.entries)) unique_step
      (Lease.Unique.init (owner_vacant hzero)) _
  -- An OFFER leaves the table as it was.
  have hsame : s'.entries = s.entries := by
    apply step_entries s disc
    rw [hoffer.1]
    decide
  have hopen : ∃ i, OpenTo m a i t := by
    apply open_between hm hother
    · unfold OpenTo
      rw [hsame]
      exact open_of_offered hoffer
    · unfold BoundTo at hfree ⊢
      rw [hsame]
      exact hfree
  obtain ⟨i, hi⟩ := hopen
  rw [← hclient] at hm hi ⊢
  exact claim_granted hinj' hu hm hi hclaims halloc

theorem offer_honoured_pool :
    let t := (run udpRecvProc (udpRecvProc pool (datagram 1 1 0 true)).1
      [datagram 2 1 0 true, datagram 2 3 0x0307A8C0 true]).1
    let req := datagram 1 3 0x0207A8C0 true
    ∃ reply, datagrams (udpRecvProc t req).2 = [reply] ∧
      ackOf reply = some ⟨macOf 1, 0x0207A8C0⟩ ∧
        ∃ i, BoundTo (macOf 1) 0x0207A8C0 i (udpRecvProc t req).1 := by
  have hclient : client pool (datagram 1 1 0 true) = macOf 1 := by decide +kernel
  rw [← hclient]
  refine offer_honoured pool (by decide +kernel) (by decide +kernel) []
    [datagram 2 1 0 true, datagram 2 3 0x0307A8C0 true] (datagram 1 1 0 true)
    (datagram 1 3 0x0207A8C0 true) 0x0207A8C0 ?_ ?_ ?_ (Or.inr ?_) ?_ ?_ rfl
  · decide +kernel
  · unfold Offered
    decide +kernel
  · decide +kernel
  · decide +kernel
  · decide +kernel
  · unfold Claims
    decide +kernel

end Lrndis.Dhcp
