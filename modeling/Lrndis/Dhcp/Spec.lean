import Lrndis.Dhcp.Code
import Lrndis.Lib.Lease

/-!
# What the DHCP server is for

The table as leases: an entry with a non-zero MAC is owned by that client. The clients
know what the ACKs tell them.
-/

namespace Lrndis.Dhcp

open Mem

variable {n : Nat}

def owner (entries : Table n) (i : Fin n) : Option Mac :=
  if (entries i).mac = Buffer.zero 6 then none else some (entries i).mac

theorem owner_eq_some (entries : Table n) (i : Fin n) (m : Mac) :
    owner entries i = some m ↔ (entries i).mac = m ∧ m ≠ Buffer.zero 6 := by
  unfold owner
  split
  · rename_i h
    rw [h]
    constructor
    · simp
    · rintro ⟨rfl, hne⟩
      exact absurd rfl hne
  · rename_i h
    constructor
    · rintro hm
      rw [← Option.some.inj hm]
      exact ⟨rfl, h⟩
    · rintro ⟨rfl, -⟩
      rfl

theorem owner_eq_none (entries : Table n) (i : Fin n) :
    owner entries i = none ↔ (entries i).mac = Buffer.zero 6 := by
  unfold owner
  split <;> simp [*]

/-! ## What the clients are told -/

structure Ack where
  client : Mac
  addr : UInt32
deriving DecidableEq

def ackOf (data : List UInt8) : Option Ack :=
  if messageType data = dhcpAck then some ⟨chaddr data, word32At data DhcpType.yiaddr⟩ else none

def acks (out : List LwipCall) : List Ack := (datagrams out).filterMap ackOf

def held (out : List LwipCall) : Mac → Option UInt32 :=
  (acks out).foldl (fun h a => Function.update h a.client (some a.addr)) fun _ => none

def Exclusive (out : List LwipCall) : Prop :=
  ∀ m m' a, held out m = some a → held out m' = some a → m = m'

@[simp] theorem acks_append (out more : List LwipCall) :
    acks (out ++ more) = acks out ++ acks more := by
  simp only [acks, datagrams_append, List.filterMap_append]

theorem held_quiet (out more : List LwipCall) (h : acks more = []) :
    held (out ++ more) = held out := by
  rw [held, acks_append, h, List.append_nil, held]

theorem held_ack (out more : List LwipCall) (a : Ack) (h : acks more = [a]) :
    held (out ++ more) = Function.update (held out) a.client (some a.addr) := by
  rw [held, acks_append, h, List.foldl_append]
  rfl

/-! ## What one message may touch -/

/-- Only the MACs of vacant entries and of the client's own ones change, and only to
the client's or to zero. -/
def Confined (m : Mac) (entries entries' : Table n) : Prop :=
  ∀ j, entries' j = entries j ∨
    (((entries j).mac = Buffer.zero 6 ∨ (entries j).mac = m) ∧
      ∃ mac, (mac = m ∨ mac = Buffer.zero 6) ∧ entries' j = { entries j with mac := mac })

theorem Confined.refl (m : Mac) (entries : Table n) : Confined m entries entries :=
  fun _ => Or.inl rfl

theorem Confined.trans {m : Mac} {a b c : Table n} (h : Confined m a b) (h' : Confined m b c) :
    Confined m a c := by
  intro j
  rcases h j with hj | ⟨hown, x, hx, hj⟩
  · rw [← hj]
    exact h' j
  · rcases h' j with hj' | ⟨-, y, hy, hj'⟩
    · exact Or.inr ⟨hown, x, hx, by rw [hj', hj]⟩
    · exact Or.inr ⟨hown, y, hy, by rw [hj', hj]⟩

theorem Confined.config {m : Mac} {a b : Table n} (h : Confined m a b) (j : Fin n) :
    (b j).addr = (a j).addr ∧ (b j).subnet = (a j).subnet ∧ (b j).lease = (a j).lease := by
  rcases h j with hj | ⟨-, x, -, hj⟩
  · rw [hj]
    exact ⟨rfl, rfl, rfl⟩
  · rw [hj]
    exact ⟨rfl, rfl, rfl⟩

theorem Confined.addr {m : Mac} {a b : Table n} (h : Confined m a b) :
    (fun i => (b i).addr) = fun i => (a i).addr :=
  funext fun j => (h.config j).1

end Lrndis.Dhcp
