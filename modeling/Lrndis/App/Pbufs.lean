import Lrndis.App.Mailbox
import Lrndis.Dhcp.Code
import Lrndis.Dns.Code
import Lrndis.Lib.RefCount
import Lrndis.Lib.Run

/-!
# The references to pbufs

`usb_polling` and the two `udp_recv_proc` over the pool of lwIP. The stack holds
references of its own: it may take more, keep them for as long as it likes, and hand one
to a callback. `ethernet_input` takes the caller's reference, so its caller
has nothing left to free.
-/

namespace Lrndis.App

open RefCount Run

/-! ## The stack -/

inductive StackCall
  | alloc (p : Nat)
  | ref (p : Nat)
  | free (p : Nat)

def StackCall.exec (l : Ledger Nat) : StackCall → Ledger Nat
  | .alloc p => if l.InUse p then l else l.share p
  | .ref p => if l.InUse p then l.share p else l
  | .free p => l.drop p

/-- A datagram in the pbuf `arg` for one of the servers. `own` is the pbuf that the server
gets from `pbuf_alloc`, and `during` is what the stack does in `udp_sendto`. -/
structure Delivery where
  arg : Nat
  payload : List UInt8
  port : UInt16
  own : Nat
  ok : Bool
  during : List StackCall

inductive StackAct
  | call (c : StackCall)
  | dhcp (d : Delivery)
  | dns (d : Delivery)

/-! ## The handlers -/

structure Node (n : Nat) where
  mailbox : Mailbox
  dhcp : Dhcp.Server n
  dns : Dns.DnsQuery
  pool : Ledger Nat

def Node.boot {n : Nat} (dhcp : Dhcp.Server n) : Node n :=
  { mailbox := .boot, dhcp := dhcp, dns := .zero, pool := .empty }

variable {n : Nat}

/-- `pbuf_alloc` may fail, and never gives a pbuf in use. -/
def allocates (l : Ledger Nat) (own : Nat) (ok : Bool) : Bool := ok && !decide (l.InUse own)

/-- One call of a handler. `during` is what the stack does before the call returns. -/
def exec (pbuf : Pbuf → Nat) (during : Node n → Node n) (s : Node n) : LwipCall → Node n
  | .alloc _ true => { s with pool := s.pool.acquire (pbuf .own) }
  | .alloc _ false => s
  | .sendto _ _ => during s
  | .ethernetInput _ => during { s with pool := s.pool.give (pbuf .own) }
  | .free p => { s with pool := s.pool.release (pbuf p) }

def Delivery.pbuf (d : Delivery) : Pbuf → Nat
  | .arg => d.arg
  | .own => d.own

def Delivery.exec (d : Delivery) (s : Node n) (calls : List LwipCall) : Node n :=
  calls.foldl (App.exec d.pbuf fun t => { t with pool := d.during.foldl StackCall.exec t.pool })
    { s with pool := s.pool.take d.arg }

variable (queryProc : List UInt8 → Option UInt32)

def act (s : Node n) : StackAct → Node n
  | .call c => { s with pool := c.exec s.pool }
  | .dhcp d =>
    if 0 < s.pool.held d.arg then
      let r := Dhcp.udpRecvProc s.dhcp ⟨d.payload, d.port, allocates s.pool d.own d.ok⟩
      d.exec { s with dhcp := r.1 } r.2
    else s
  | .dns d =>
    if 0 < s.pool.held d.arg then
      let r := Dns.udpRecvProc queryProc s.dns ⟨d.payload, d.port, allocates s.pool d.own d.ok⟩
      d.exec { s with dns := r.1 } r.2
    else s

inductive Input
  | packet (f : Frame)
  /-- something of the stack's own, from a timer or a request of the application -/
  | stack (a : StackAct)
  /-- `usb_polling`, with what the stack does in `ethernet_input` -/
  | poll (own : Nat) (ok : Bool) (during : List StackAct)

def Input.free (p : Nat) : Input := .stack (.call (.free p))

def step (s : Node n) : Input → Node n × List Empty
  | .packet f => ({ s with mailbox := s.mailbox.packet f }, [])
  | .stack a => (act queryProc s a, [])
  | .poll own ok during =>
    let r := usbPolling s.mailbox (allocates s.pool own ok)
    (r.2.foldl (exec (fun _ => own) fun t => during.foldl (act queryProc) t)
      { s with mailbox := r.1 }, [])

def NoFrame (s : Node n) : Input → Prop
  | .poll own ok _ => s.mailbox.recvSize = 0 ∨ allocates s.pool own ok = false
  | _ => True

/-! ## What a callback does -/

/-- One pbuf is allocated, sent and freed, or none. The datagram is freed last. -/
inductive Replies : List LwipCall → Prop
  | silent : Replies [.free .arg]
  | failed (len : Nat) : Replies [.alloc len false, .free .arg]
  | sent (len : Nat) (payload : List UInt8) (port : UInt16) :
      Replies [.alloc len true, .sendto payload port, .free .own, .free .arg]

theorem dhcp_replies (s : Dhcp.Server n) (d : Dhcp.Datagram) :
    Replies (Dhcp.udpRecvProc s d).2 := by
  unfold Dhcp.udpRecvProc
  simp only
  split
  · unfold Dhcp.handleDiscover
    simp only
    split
    · exact .silent
    · split
      · exact .sent _ _ _
      · exact .failed _
  split
  · unfold Dhcp.handleRequest
    split
    · exact .silent
    simp only
    split
    · exact .silent
    split
    · exact .silent
    split
    · exact .sent _ _ _
    · exact .failed _
  · exact .silent

theorem dns_replies (query : Dns.DnsQuery) (d : Dns.Datagram) :
    Replies (Dns.udpRecvProc queryProc query d).2 := by
  unfold Dns.udpRecvProc
  simp only
  split
  · exact .silent
  split
  · exact .silent
  split
  · exact .silent
  split
  · exact .silent
  split
  · exact .silent
  split
  · exact .sent _ _ _
  · exact .failed _

/-! ## The balance -/

theorem balance_stackCall (l : Ledger Nat) (c : StackCall) (p : Nat) :
    (c.exec l).balance p = l.balance p := by
  cases c with
  | alloc q =>
    simp only [StackCall.exec]
    split <;> simp
  | ref q =>
    simp only [StackCall.exec]
    split <;> simp
  | free q => exact l.balance_drop q p

theorem balance_stackCalls (l : Ledger Nat) (cs : List StackCall) (p : Nat) :
    (cs.foldl StackCall.exec l).balance p = l.balance p := by
  induction cs generalizing l with
  | nil => rfl
  | cons c cs ih => rw [List.foldl_cons, ih, balance_stackCall]

theorem balance_delivery (d : Delivery) (s : Node n) (calls : List LwipCall)
    (hheld : 0 < s.pool.held d.arg) (h : Replies calls) (p : Nat) :
    (d.exec s calls).pool.balance p = s.pool.balance p := by
  have htake := s.pool.balance_take d.arg p hheld
  cases h with
  | silent =>
    simp only [Delivery.exec, List.foldl, App.exec, Delivery.pbuf, Ledger.balance_release]
    omega
  | failed len =>
    simp only [Delivery.exec, List.foldl, App.exec, Delivery.pbuf, Ledger.balance_release]
    omega
  | sent len payload port =>
    simp only [Delivery.exec, List.foldl, App.exec, Delivery.pbuf, Ledger.balance_release,
      balance_stackCalls, Ledger.balance_acquire]
    omega

theorem balance_act (s : Node n) (a : StackAct) (p : Nat) :
    (act queryProc s a).pool.balance p = s.pool.balance p := by
  cases a with
  | call c => exact balance_stackCall s.pool c p
  | dhcp d =>
    simp only [act]
    split
    · rename_i hheld
      have hreplies := dhcp_replies s.dhcp ⟨d.payload, d.port, allocates s.pool d.own d.ok⟩
      generalize Dhcp.udpRecvProc s.dhcp _ = r at hreplies ⊢
      exact balance_delivery d { s with dhcp := r.1 } r.2 hheld hreplies p
    · rfl
  | dns d =>
    simp only [act]
    split
    · rename_i hheld
      have hreplies := dns_replies queryProc s.dns
        ⟨d.payload, d.port, allocates s.pool d.own d.ok⟩
      generalize Dns.udpRecvProc queryProc s.dns _ = r at hreplies ⊢
      exact balance_delivery d { s with dns := r.1 } r.2 hheld hreplies p
    · rfl

theorem balance_acts (s : Node n) (as : List StackAct) (p : Nat) :
    (as.foldl (act queryProc) s).pool.balance p = s.pool.balance p := by
  induction as generalizing s with
  | nil => rfl
  | cons a as ih => rw [List.foldl_cons, ih, balance_act]

theorem balance_frame (s : Node n) (own : Nat) (ok : Bool) (during : List StackAct) (p : Nat)
    (h : ¬NoFrame s (.poll own ok during)) :
    (step queryProc s (.poll own ok during)).1.pool.balance p =
      s.pool.balance p - if p = own then 1 else 0 := by
  simp only [NoFrame, not_or, Bool.not_eq_false] at h
  obtain ⟨hsize, hok⟩ := h
  simp only [step, usbPolling, if_neg hsize, if_pos hok, List.foldl, exec, Ledger.balance_release,
    balance_acts, Ledger.balance_give, Ledger.balance_acquire]
  omega

theorem balance_noFrame (s : Node n) (i : Input) (h : NoFrame s i) (p : Nat) :
    (step queryProc s i).1.pool.balance p = s.pool.balance p := by
  cases i with
  | packet f => rfl
  | stack a => exact balance_act queryProc s a p
  | poll own ok during =>
    rcases h with hsize | hfail
    · simp only [step, usbPolling, if_pos hsize]
      rfl
    · simp only [step, usbPolling, hfail]
      split <;> rfl

theorem balance_step_le (s : Node n) (i : Input) (p : Nat) :
    (step queryProc s i).1.pool.balance p ≤ s.pool.balance p := by
  rcases Classical.em (NoFrame s i) with h | h
  · rw [balance_noFrame queryProc s i h p]
  · cases i with
    | packet f => exact absurd trivial h
    | stack a => exact absurd trivial h
    | poll own ok during =>
      rw [balance_frame queryProc s own ok during p h]
      split <;> omega

theorem balance_step_iff (s : Node n) (i : Input) :
    (∀ p, (step queryProc s i).1.pool.balance p = s.pool.balance p) ↔ NoFrame s i := by
  constructor
  · intro hsame
    by_contra h
    cases i with
    | packet f => exact h trivial
    | stack a => exact h trivial
    | poll own ok during =>
      have hframe := balance_frame queryProc s own ok during own h
      rw [hsame own, if_pos rfl] at hframe
      omega
  · exact fun h p => balance_noFrame queryProc s i h p

theorem pool_frees (s : Node n) (ps : List Nat) :
    (run (step queryProc) s (ps.map .free)).1.pool = ps.foldl Ledger.drop s.pool := by
  induction ps generalizing s with
  | nil => rfl
  | cons p ps ih =>
    rw [List.map_cons, run_cons, ih]
    rfl

/-! ## The pool -/

/-- Cut a run anywhere, and let the stack go on and release what it holds: no reference is
released twice, nothing that the stack holds is out of use, and nothing is lost, exactly
when no frame was handed on. -/
theorem pool_sound_iff (dhcp : Dhcp.Server n) (is : List Input) :
    (∀ (pre post : List Input) (ps : List Nat), is = pre ++ post →
      (run (step queryProc) (Node.boot dhcp) (pre ++ ps.map .free)).1.pool.Sound) ↔
      Along (step queryProc) NoFrame (Node.boot dhcp) is := by
  have hrule := constant_iff_along (q := fun p s => s.pool.balance p)
    (balance_step_le (n := n) queryProc) (balance_step_iff queryProc) (Node.boot dhcp)
  have hpool := fun pre ps => pool_frees queryProc (run (step queryProc) (Node.boot dhcp) pre).1 ps
  constructor
  · intro hsound
    apply (hrule is).mp
    intro p
    have hle := antitone_run (q := fun p s => s.pool.balance p) (balance_step_le queryProc)
      (Node.boot dhcp) is p
    -- Let the stack release all that it holds of `p`: then a missing reference shows.
    have hdrop := hsound is [] (List.replicate
      ((run (step queryProc) (Node.boot dhcp) is).1.pool.held p) p) (by simp)
    rw [run_append, hpool] at hdrop
    exact le_antisymm hle (Ledger.sound_dropAll hdrop)
  · rintro halong pre post ps rfl
    rw [along_append] at halong
    have hpre := (hrule pre).mpr halong.1
    rw [run_append, hpool]
    apply Ledger.sound_of_balance
    intro p
    rw [Ledger.balance_drops]
    exact (hpre p).trans (Ledger.balance_empty p)

section Frame

def pingFrame : Frame := { bytes := List.replicate 60 0, fits := by decide }

def emptyNode : Node 0 :=
  .boot {
    dhcpData := Mem.Buffer.zero _
    config := { addr := 0, dns := 0, domain := none }
    entries := fun i => i.elim0 }

def afterFrame (during : List StackCall) : Ledger Nat :=
  (run (step fun _ => none) emptyNode
    [.packet pingFrame, .poll 0 true (during.map .call)]).1.pool

/-- If the stack drops the frame, the pbuf is freed twice. If it keeps the frame, the
pbuf goes back to the pool all the same. -/
theorem frame_freed_twice :
    (¬∀ is, (run (step fun _ => none) emptyNode is).1.pool.Sound) ∧
    ((afterFrame [.free 0]).acquired 0 = 1 ∧ (afterFrame [.free 0]).released 0 = 2) ∧
    ((afterFrame [.ref 0, .free 0]).held 0 = 1 ∧ ¬(afterFrame [.ref 0, .free 0]).InUse 0) := by
  have hdrop : (afterFrame [.free 0]).acquired 0 = 1 ∧ (afterFrame [.free 0]).released 0 = 2 := by
    decide +kernel
  refine ⟨fun h => ?_, hdrop, by decide +kernel⟩
  have hle : (afterFrame [.free 0]).released 0 ≤ (afterFrame [.free 0]).acquired 0 :=
    (h _).released_le 0
  omega

end Frame

end Lrndis.App
