import Lrndis.Lib.Run
import Lrndis.Transmit.Refinement

/-!
# The transmitter and the host

The main program calls `rndis_send`, IN transfers complete, and callers write to
their memory, in any order. A transfer reaches the host packet by packet as it is
given to the controller.
-/

namespace Lrndis.Transmit

open Mem Run

structure Call where
  data : Nat
  size : Int
  ready : Bool
  frame : List UInt8

structure Sys where
  tx : Tx
  mem : Nat → UInt8
  /-- The main program is in `rndis_send`, before interrupts are disabled. -/
  entering : Option Call
  /-- Transfers on the data IN endpoint that have not completed. -/
  pending : List (List UInt8)
  base : Nat
  frame : List UInt8
  /-- Completions of data IN transfers since the last accepted call. -/
  completions : Nat

def Sys.boot (mem : Nat → UInt8) : Sys where
  tx := Tx.boot
  mem := mem
  entering := none
  pending := []
  base := 0
  frame := []
  completions := 0

inductive Input
  | call (data : Nat) (size : Int)
  | enter
  | complete (epnum : UInt8)
  | poke (mem : Nat → UInt8)

inductive Output
  | returned (ready : Bool) (size : Int) (ok : Bool) (frame : List UInt8)
  | packet (bytes : List UInt8)

def issue (s : Sys) : Option EpTx → Sys × List Output
  | none => (s, [])
  | some t =>
    ({ s with pending := s.pending ++ [t.bytes s.mem s.tx.first] },
      (Cut.cut rndisDataInSz (t.bytes s.mem s.tx.first)).map .packet)

/-- The callers leave the buffers alone that they gave away. -/
def keeps (s : Sys) (mem : Nat → UInt8) : Bool :=
  (match s.entering with
    | some c => load mem c.data c.size.toNat = c.frame
    | none => true) &&
  (rndisCanSend s.tx || load mem s.base s.frame.length = s.frame)

def step (s : Sys) : Input → Sys × List Output
  | .call data size =>
    match s.entering with
    | some _ => (s, [])
    | none =>
      let c : Call := ⟨data, size, rndisCanSend s.tx, load s.mem data size.toNat⟩
      if accepts s.tx size then ({ s with entering := some c }, [])
      else (s, [.returned (rndisCanSend s.tx) size false (load s.mem data size.toNat)])
  | .enter =>
    match s.entering with
    | none => (s, [])
    | some c =>
      let r := start s.mem s.tx c.data c.size
      let s := { s with
        tx := r.1, entering := none, base := c.data, frame := c.frame, completions := 0 }
      let q := issue s r.2
      (q.1, .returned c.ready c.size true c.frame :: q.2)
  | .complete epnum =>
    if epnum &&& 0x0F = rndisDataInEp &&& 0x0F then
      match s.pending with
      | [] => (s, [])
      | _ :: rest =>
        let r := usbdRndisDataIn s.mem s.tx epnum
        issue { s with tx := r.1, pending := rest, completions := s.completions + 1 } r.2
    else
      let r := usbdRndisDataIn s.mem s.tx epnum
      issue { s with tx := r.1 } r.2
  | .poke mem => if keeps s mem then ({ s with mem := mem }, []) else (s, [])

/-! ## What the host sees -/

def accepted : List Output → List (List UInt8)
  | [] => []
  | .returned _ _ true f :: out => f :: accepted out
  | _ :: out => accepted out

def stream : List Output → List (List UInt8)
  | [] => []
  | .packet p :: out => p :: stream out
  | _ :: out => stream out

@[simp] theorem accepted_append (out more : List Output) :
    accepted (out ++ more) = accepted out ++ accepted more := by
  induction out with
  | nil => rfl
  | cons o out ih =>
    cases o with
    | packet p => simpa [accepted] using ih
    | returned r size ok f => cases ok <;> simpa [accepted] using ih

@[simp] theorem stream_append (out more : List Output) :
    stream (out ++ more) = stream out ++ stream more := by
  induction out with
  | nil => rfl
  | cons o out ih => cases o <;> simpa [stream] using ih

@[simp] theorem stream_packets (ps : List (List UInt8)) : stream (ps.map .packet) = ps := by
  induction ps with
  | nil => rfl
  | cons p ps ih => simp [stream, ih]

@[simp] theorem accepted_packets (ps : List (List UInt8)) : accepted (ps.map .packet) = [] := by
  induction ps with
  | nil => rfl
  | cons p ps ih => simp [accepted, ih]

def Answers : Output → Prop
  | .returned ready size ok _ => ok = true ↔ ready = true ∧ 1 ≤ size ∧ size ≤ 1514
  | .packet _ => True

/-- A frame is on its way: `sofar` are the packets sent of it, and `left` those to come. -/
structure Sending (s : Sys) (out : List Output) : Prop where
  busy : Busy s.tx
  one : ∃ b, s.pending = [b]
  outside : s.entering = none
  kept : load s.mem s.base s.frame.length = s.frame
  ptr : s.base ≤ s.tx.ptr ∧ s.tx.ptr + s.tx.size ≤ s.base + s.frame.length
  order : ∃ before sofar, accepted out = before ++ [s.frame] ∧
    stream out = before.flatMap packets ++ sofar ∧
    sofar ++ (left s.mem s.tx).flatMap (Cut.cut rndisDataInSz) = packets s.frame
  soon : s.completions + (left s.mem s.tx).length ≤ 2

structure Idle (s : Sys) (out : List Output) : Prop where
  ready : s.tx.state = .ready
  none : s.pending = []
  order : stream out = (accepted out).flatMap packets
  soon : s.completions ≤ 3

structure Inv (s : Sys) (out : List Output) : Prop where
  answers : ∀ o ∈ out, Answers o
  sizes : ∀ f ∈ accepted out, 1 ≤ f.length ∧ f.length ≤ 1514
  entering : ∀ c, s.entering = some c → c.ready = true ∧ 1 ≤ c.size ∧ c.size ≤ 1514 ∧
    load s.mem c.data c.size.toNat = c.frame
  phase : Idle s out ∨ Sending s out

theorem inv_boot (mem : Nat → UInt8) : Inv (Sys.boot mem) [] where
  answers := by simp
  sizes := by simp [accepted]
  entering := by simp [Sys.boot]
  phase := Or.inl ⟨rfl, rfl, rfl, by simp [Sys.boot]⟩

/-! ## Each step -/

theorem left_congr (mem mem' : Nat → UInt8) (s : Tx) (base n : Nat)
    (h : load mem base n = load mem' base n) (hptr : base ≤ s.ptr)
    (hend : s.ptr + s.size ≤ base + n) : left mem s = left mem' s := by
  unfold left
  rw [load_congr mem mem' base n h s.ptr s.size hptr hend]

theorem inv_call (s : Sys) (out : List Output) (data : Nat) (size : Int) (h : Inv s out) :
    Inv (step s (.call data size)).1 (out ++ (step s (.call data size)).2) := by
  unfold step
  cases hent : s.entering with
  | some c => simpa using h
  | none =>
    have hready := rndisCanSend_iff s.tx
    have hmax : (ethMaxPacketSize : Int) = 1514 := rfl
    simp only
    split
    · rename_i hok
      obtain ⟨hr, hpos, hle⟩ := (accepts_iff s.tx size).mp hok
      have hidle : Idle s out :=
        h.phase.resolve_right fun hs => busy_not_ready hs.busy hr
      simp only [List.append_nil]
      refine ⟨h.answers, h.sizes, ?_, Or.inl ⟨hr, hidle.none, hidle.order, hidle.soon⟩⟩
      intro c hc
      simp only [Option.some.injEq] at hc
      subst hc
      exact ⟨hready.mpr hr, hpos, hmax ▸ hle, rfl⟩
    · rename_i hno
      have hacc : accepted (out ++ [.returned (rndisCanSend s.tx) size false
          (load s.mem data size.toNat)]) = accepted out := by simp [accepted]
      have hstr : stream (out ++ [.returned (rndisCanSend s.tx) size false
          (load s.mem data size.toNat)]) = stream out := by simp [stream]
      refine ⟨?_, by rw [hacc]; exact h.sizes, h.entering, ?_⟩
      · intro o ho
        rcases List.mem_append.mp ho with ho | ho
        · exact h.answers o ho
        · rw [List.mem_singleton.mp ho]
          have := (accepts_iff s.tx size).not.mp hno
          rw [hmax] at this
          simpa [Answers, hready] using this
      · rcases h.phase with hi | hs
        · exact Or.inl ⟨hi.ready, hi.none, by rw [hacc, hstr]; exact hi.order, hi.soon⟩
        · exact Or.inr ⟨hs.busy, hs.one, hs.outside, hs.kept, hs.ptr,
            by rw [hacc, hstr]; exact hs.order, hs.soon⟩

theorem inv_enter (s : Sys) (out : List Output) (h : Inv s out) :
    Inv (step s .enter).1 (out ++ (step s .enter).2) := by
  unfold step
  cases hent : s.entering with
  | none => simpa using h
  | some c =>
    obtain ⟨hcr, hpos, hle, hframe⟩ := h.entering c hent
    -- While a frame is on its way, no other call is past its test.
    have hidle : Idle s out := h.phase.resolve_right fun hs => by
      simp [hs.outside] at hent
    obtain ⟨t, ht, hbytes, hleft, hstate, hptr, hend, -⟩ :=
      start_spec s.mem s.tx c.data c.size (by omega)
    have hlen : c.frame.length = c.size.toNat := by rw [← hframe, load_length]
    rw [hframe] at hbytes hleft
    have hne : c.frame ≠ [] := by
      intro hnil
      rw [hnil, List.length_nil] at hlen
      omega
    simp only [ht, issue, hbytes, hidle.none, List.nil_append]
    have hacc : accepted (out ++ .returned c.ready c.size true c.frame ::
        (Cut.cut rndisDataInSz (firstTransfer c.frame)).map .packet) =
          accepted out ++ [c.frame] := by simp [accepted]
    have hstr : stream (out ++ .returned c.ready c.size true c.frame ::
        (Cut.cut rndisDataInSz (firstTransfer c.frame)).map .packet) =
          stream out ++ Cut.cut rndisDataInSz (firstTransfer c.frame) := by simp [stream]
    refine ⟨?_, ?_, by simp, Or.inr ⟨Or.inl hstate, ⟨_, rfl⟩, rfl, ?_, ?_, ?_, ?_⟩⟩
    · intro o ho
      simp only [List.mem_append, List.mem_cons, List.mem_map] at ho
      rcases ho with ho | rfl | ⟨p, -, rfl⟩
      · exact h.answers o ho
      · simp [Answers, hcr, hpos, hle]
      · trivial
    · intro f hf
      rw [hacc, List.mem_append, List.mem_singleton] at hf
      rcases hf with hf | rfl
      · exact h.sizes f hf
      · rw [hlen]
        omega
    · rw [← hlen] at hframe
      exact hframe
    · rw [hlen]
      exact ⟨hptr, Nat.le_of_eq hend⟩
    · refine ⟨accepted out, Cut.cut rndisDataInSz (firstTransfer c.frame), hacc, ?_, ?_⟩
      · rw [hstr, hidle.order]
      · rw [hleft, packets_eq c.frame hne]
    · rw [hleft, Nat.zero_add]
      exact later_length c.frame

theorem inv_complete (s : Sys) (out : List Output) (epnum : UInt8) (h : Inv s out) :
    Inv (step s (.complete epnum)).1 (out ++ (step s (.complete epnum)).2) := by
  unfold step
  by_cases hep : epnum &&& 0x0F = rndisDataInEp &&& 0x0F
  · simp only [if_pos hep]
    rcases h.phase with hidle | hs
    · simpa [hidle.none] using h
    · obtain ⟨b, hb⟩ := hs.one
      obtain ⟨before, sofar, hacc, hstr, hrest⟩ := hs.order
      have hsoon := hs.soon
      have hcomplete := complete_spec s.mem s.tx epnum hs.busy hep
      have hentering : ∀ c, s.entering = some c → _ := h.entering
      rw [hb]
      cases hleft : left s.mem s.tx with
      | nil =>
        -- The last transfer is done: the message is complete.
        rw [hleft] at hcomplete hrest hsoon
        simp only [List.flatMap_nil, List.append_nil, List.length_nil] at hrest hsoon
        simp only at hcomplete
        simp only [hcomplete, issue, List.append_nil]
        refine ⟨h.answers, h.sizes, hentering, Or.inl ⟨rfl, rfl, ?_, by simp only; omega⟩⟩
        rw [hstr, hacc, hrest]
        simp
      | cons x rest =>
        rw [hleft] at hcomplete hrest hsoon
        -- The next transfer starts, and its packets follow the ones so far.
        obtain ⟨t, state, hstep, hbytes, hleft', hbusy⟩ := hcomplete
        simp only [hstep, issue, hbytes, List.nil_append]
        have hacc' : accepted (out ++ (Cut.cut rndisDataInSz x).map .packet) = accepted out := by
          simp
        refine ⟨?_, by rw [hacc']; exact h.sizes, hentering,
          Or.inr ⟨hbusy, ⟨_, rfl⟩, hs.outside, hs.kept, hs.ptr, ?_, ?_⟩⟩
        · intro o ho
          simp only [List.mem_append, List.mem_map] at ho
          rcases ho with ho | ⟨p, -, rfl⟩
          · exact h.answers o ho
          · trivial
        · refine ⟨before, sofar ++ Cut.cut rndisDataInSz x, by rw [hacc', hacc], ?_, ?_⟩
          · rw [stream_append, stream_packets, hstr, List.append_assoc]
          · rw [hleft', List.append_assoc, ← List.flatMap_cons]
            exact hrest
        · rw [hleft']
          simp only [List.length_cons] at hsoon ⊢
          omega
  · simp only [if_neg hep, other_endpoint s.mem s.tx epnum hep, issue, List.append_nil]
    exact h

theorem inv_poke (s : Sys) (out : List Output) (mem : Nat → UInt8) (h : Inv s out) :
    Inv (step s (.poke mem)).1 (out ++ (step s (.poke mem)).2) := by
  unfold step
  simp only
  split
  · rename_i hkeeps
    simp only [keeps, Bool.and_eq_true, Bool.or_eq_true, decide_eq_true_eq] at hkeeps
    obtain ⟨hcall, hframe⟩ := hkeeps
    simp only [List.append_nil]
    refine ⟨h.answers, h.sizes, ?_, ?_⟩
    · intro c hc
      obtain ⟨hr, hpos, hle, -⟩ := h.entering c hc
      rw [hc] at hcall
      exact ⟨hr, hpos, hle, by simpa using hcall⟩
    · rcases h.phase with hi | hs
      · exact Or.inl ⟨hi.ready, hi.none, hi.order, hi.soon⟩
      · have hkept : load mem s.base s.frame.length = s.frame := by
          rcases hframe with hr | hf
          · exact absurd ((rndisCanSend_iff s.tx).mp hr) (busy_not_ready hs.busy)
          · exact hf
        have hleft : left mem s.tx = left s.mem s.tx :=
          left_congr mem s.mem s.tx s.base s.frame.length (hkept.trans hs.kept.symm)
            hs.ptr.1 hs.ptr.2
        exact Or.inr ⟨hs.busy, hs.one, hs.outside, hkept, hs.ptr,
          by rw [hleft]; exact hs.order, by rw [hleft]; exact hs.soon⟩
  · simpa using h

theorem inv_step (s : Sys) (out : List Output) (i : Input) (h : Inv s out) :
    Inv (step s i).1 (out ++ (step s i).2) := by
  cases i with
  | call data size => exact inv_call s out data size h
  | enter => exact inv_enter s out h
  | complete epnum => exact inv_complete s out epnum h
  | poke mem => exact inv_poke s out mem h

theorem inv_run (mem : Nat → UInt8) (is : List Input) :
    Inv (run step (Sys.boot mem) is).1 (run step (Sys.boot mem) is).2 :=
  history_run (fun s out i h => inv_step s out i h) (inv_boot mem) is

/-- Whatever the order of calls, completions and writes, the host sees the accepted
frames as messages, one after another, the last one possibly in progress. -/
theorem host_sees_messages (mem : Nat → UInt8) (is : List Input) :
    let s := (run step (Sys.boot mem) is).1
    let out := (run step (Sys.boot mem) is).2
    (∀ o ∈ out, Answers o) ∧
      s.pending.length ≤ 1 ∧ (s.tx.state = .ready ↔ s.pending = []) ∧
      (∀ f ∈ accepted out, 1 ≤ f.length ∧ f.length ≤ 1514 ∧ Described (message f) f ∧
        (message f).length % rndisDataInSz ≠ 0) ∧
      (s.tx.state = .ready → stream out = (accepted out).flatMap packets) ∧
      (s.tx.state ≠ .ready → ∃ before last sofar, accepted out = before ++ [last] ∧
        stream out = before.flatMap packets ++ sofar ∧ sofar <+: packets last) ∧
      s.completions ≤ 3 ∧ (s.tx.state ≠ .ready → s.completions < 3) := by
  intro s out
  have hinv : Inv s out := inv_run mem is
  have hmsgs : ∀ f ∈ accepted out, 1 ≤ f.length ∧ f.length ≤ 1514 ∧ Described (message f) f ∧
      (message f).length % rndisDataInSz ≠ 0 := by
    intro f hf
    obtain ⟨hpos, hle⟩ := hinv.sizes f hf
    exact ⟨hpos, hle, message_described f hle, message_ends_short f⟩
  rcases hinv.phase with hi | hs
  · refine ⟨hinv.answers, by simp [hi.none], by simp [hi.ready, hi.none], hmsgs,
      fun _ => hi.order, fun hne => absurd hi.ready hne, hi.soon,
      fun hne => absurd hi.ready hne⟩
  · have hne := busy_not_ready hs.busy
    have hsoon := hs.soon
    obtain ⟨b, hb⟩ := hs.one
    obtain ⟨before, sofar, hacc, hstr, hrest⟩ := hs.order
    refine ⟨hinv.answers, by simp [hb], by simp [hne, hb], hmsgs, fun hr => absurd hr hne,
      fun _ => ⟨before, s.frame, sofar, hacc, hstr, ⟨_, hrest⟩⟩, by omega, fun _ => by omega⟩

end Lrndis.Transmit
