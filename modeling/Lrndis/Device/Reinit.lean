import Lrndis.Device.Code

/-!
# The data path after a bus reset

`usbd_rndis_init` does not touch the state of the transmitter, nor the statics of the
receiver. A new connection behaves as after boot only if the old one ended between
frames.
-/

namespace Lrndis.Device

open Mem Run

/-! ## Two drivers that cannot be told apart -/

/-- The same transmitter, up to what an idle one has left behind and to the buffer of
the packet with the header, which is built anew for every frame. -/
def SameTx (s t : Transmit.Tx) : Prop :=
  (s.state = .ready ∧ t.state = .ready) ∨
    (Transmit.Busy s ∧ t = { s with first := t.first })

structure Same (d e : Dev) : Prop where
  rx : ∃ acc, Receive.Holds d.rx acc ∧ Receive.Holds e.rx acc
  rxproc : d.rx.rndisRxproc = e.rx.rndisRxproc
  tx : SameTx d.tx e.tx
  mem : d.mem = e.mem
  pending : d.pending = e.pending
  outArmed : d.outArmed = e.outArmed

theorem SameTx.ready_iff {s t : Transmit.Tx} (h : SameTx s t) :
    s.state = .ready ↔ t.state = .ready := by
  rcases h with ⟨hs, ht⟩ | ⟨-, ht⟩
  · simp [hs, ht]
  · rw [ht]

theorem SameTx.canSend {s t : Transmit.Tx} (h : SameTx s t) :
    Transmit.rndisCanSend s = Transmit.rndisCanSend t := by
  unfold Transmit.rndisCanSend
  simp only [h.ready_iff]

theorem start_same (mem : Nat → UInt8) (s t : Transmit.Tx) (data : Nat) (size : Int) :
    (Transmit.start mem t data size).2 = (Transmit.start mem s data size).2 ∧
      (Transmit.start mem t data size).1 =
        { (Transmit.start mem s data size).1 with
          first := (Transmit.start mem t data size).1.first } := by
  unfold Transmit.start Transmit.usbdRndisDataIn
  constructor
  · simp only [if_true]
  · rfl

/-- Between two transfers of a frame the driver does not look at the header packet. -/
theorem dataIn_first (mem : Nat → UInt8) (s : Transmit.Tx) (f : Buffer rndisDataInSz)
    (epnum : UInt8) (hbusy : Transmit.Busy s) :
    Transmit.usbdRndisDataIn mem { s with first := f } epnum =
      ({ (Transmit.usbdRndisDataIn mem s epnum).1 with first := f },
        (Transmit.usbdRndisDataIn mem s epnum).2) := by
  unfold Transmit.usbdRndisDataIn
  split
  · rcases hbusy with h | h | h
    · simp only [h]
      split
      · rfl
      · split <;> rfl
    · simp only [h]
      split <;> rfl
    · simp only [h]
  · rfl

theorem dataIn_bytes (mem : Nat → UInt8) (s : Transmit.Tx) (f : Buffer rndisDataInSz)
    (epnum : UInt8) (hbusy : Transmit.Busy s) :
    ∀ x ∈ (Transmit.usbdRndisDataIn mem s epnum).2,
      x.bytes mem (Transmit.usbdRndisDataIn mem s epnum).1.first = x.bytes mem f := by
  unfold Transmit.usbdRndisDataIn
  split
  · rcases hbusy with h | h | h
    · simp only [h]
      split
      · rintro x ⟨⟩
        rfl
      · split
        · rintro x ⟨⟩
          rfl
        · simp
    · simp only [h]
      split
      · rintro x ⟨⟩
        rfl
      · simp
    · simp [h]
  · simp

theorem dataIn_busy (mem : Nat → UInt8) (s : Transmit.Tx) (epnum : UInt8)
    (hbusy : Transmit.Busy s) :
    (Transmit.usbdRndisDataIn mem s epnum).1.state = .ready ∨
      Transmit.Busy (Transmit.usbdRndisDataIn mem s epnum).1 := by
  by_cases hep : epnum &&& 0x0F = rndisDataInEp &&& 0x0F
  · have hspec := Transmit.complete_spec mem s epnum hbusy hep
    cases hl : Transmit.left mem s with
    | nil =>
      rw [hl] at hspec
      left
      rw [hspec]
    | cons b rest =>
      rw [hl] at hspec
      obtain ⟨x, state, hstep, -, -, hbusy'⟩ := hspec
      right
      rw [hstep]
      exact hbusy'
  · right
    rw [Transmit.other_endpoint mem s epnum hep]
    exact hbusy

theorem dataIn_same (mem : Nat → UInt8) (s t : Transmit.Tx) (epnum : UInt8) (h : SameTx s t) :
    let r := Transmit.usbdRndisDataIn mem s epnum
    let q := Transmit.usbdRndisDataIn mem t epnum
    SameTx r.1 q.1 ∧ r.2 = q.2 ∧ ∀ x ∈ r.2, x.bytes mem r.1.first = x.bytes mem q.1.first := by
  intro r q
  rcases h with ⟨hs, ht⟩ | ⟨hbusy, ht⟩
  · have hr : r = (s, none) := by simp [r, Transmit.usbdRndisDataIn, hs]
    have hq : q = (t, none) := by simp [q, Transmit.usbdRndisDataIn, ht]
    rw [hr, hq]
    exact ⟨Or.inl ⟨hs, ht⟩, rfl, by simp⟩
  · have hq : q = ({ r.1 with first := t.first }, r.2) := by
      change Transmit.usbdRndisDataIn mem t epnum = _
      rw [ht]
      exact dataIn_first mem s t.first epnum hbusy
    rw [hq]
    refine ⟨?_, rfl, dataIn_bytes mem s t.first epnum hbusy⟩
    rcases dataIn_busy mem s epnum hbusy with hready | hbusy'
    · exact Or.inl ⟨hready, hready⟩
    · exact Or.inr ⟨hbusy', rfl⟩

/-! ## One step -/

theorem issue_same {d e : Dev} (h : Same d e) (t : Option Transmit.EpTx)
    (hbytes : ∀ x ∈ t, x.bytes d.mem d.tx.first = x.bytes d.mem e.tx.first) :
    Same (issue d t).1 (issue e t).1 ∧ (issue d t).2 = (issue e t).2 := by
  cases t with
  | none => exact ⟨h, rfl⟩
  | some x =>
    refine ⟨⟨h.rx, h.rxproc, h.tx, h.mem, rfl, h.outArmed⟩, ?_⟩
    simp only [issue, ← h.mem, hbytes x rfl]

theorem same_send {d e : Dev} (h : Same d e) (data : Nat) (size : Int) :
    Same (step d (.send data size)).1 (step e (.send data size)).1 ∧
      (step d (.send data size)).2 = (step e (.send data size)).2 := by
  have haccepts : Transmit.accepts e.tx size = Transmit.accepts d.tx size := by
    unfold Transmit.accepts
    simp only [ne_eq, h.tx.ready_iff]
  unfold step Transmit.rndisSend
  simp only
  rw [haccepts, ← h.mem]
  split
  · rename_i hok
    obtain ⟨hout, htx⟩ := start_same d.mem d.tx e.tx data size
    obtain ⟨-, hpos, -⟩ := (Transmit.accepts_iff d.tx size).mp hok
    obtain ⟨t, ht, hbytes, -, hstate, -⟩ := Transmit.start_spec d.mem d.tx data size hpos
    obtain ⟨u, hu, hbytesE, -⟩ := Transmit.start_spec d.mem e.tx data size hpos
    have hu' : u = t := by
      rw [hout, ht] at hu
      exact (Option.some.inj hu).symm
    simp only [hout]
    have hsame := issue_same (d := { d with tx := (Transmit.start d.mem d.tx data size).1 })
      (e := { e with tx := (Transmit.start d.mem e.tx data size).1, mem := d.mem })
      ⟨h.rx, h.rxproc, Or.inr ⟨Or.inl hstate, htx⟩, rfl, h.pending, h.outArmed⟩
      (Transmit.start d.mem d.tx data size).2 ?_
    · exact ⟨hsame.1, by rw [hsame.2]⟩
    · intro x hx
      rw [ht] at hx
      rw [← Option.some.inj hx, hbytes, ← hbytesE, hu']
  · exact ⟨⟨h.rx, h.rxproc, h.tx, rfl, h.pending, h.outArmed⟩, rfl⟩

theorem same_complete {d e : Dev} (h : Same d e) (epnum : UInt8) :
    Same (step d (.complete epnum)).1 (step e (.complete epnum)).1 ∧
      (step d (.complete epnum)).2 = (step e (.complete epnum)).2 := by
  obtain ⟨htx, hout, hbytes⟩ := dataIn_same d.mem d.tx e.tx epnum h.tx
  unfold step
  simp only
  rw [← h.pending, ← h.mem, ← hout]
  split
  · split
    · exact ⟨h, rfl⟩
    · exact issue_same
        (d := { d with tx := (Transmit.usbdRndisDataIn d.mem d.tx epnum).1, pending := none })
        (e := { e with
          tx := (Transmit.usbdRndisDataIn d.mem e.tx epnum).1, mem := d.mem, pending := none })
        ⟨h.rx, h.rxproc, htx, rfl, rfl, h.outArmed⟩ _ hbytes
  · exact issue_same (d := { d with tx := (Transmit.usbdRndisDataIn d.mem d.tx epnum).1 })
      (e := { e with
        tx := (Transmit.usbdRndisDataIn d.mem e.tx epnum).1, mem := d.mem, pending := d.pending })
      ⟨h.rx, h.rxproc, htx, rfl, rfl, h.outArmed⟩ _ hbytes

theorem same_out {d e : Dev} (h : Same d e) (p : Receive.OutPacket) :
    Same (step d (.out p)).1 (step e (.out p)).1 ∧ (step d (.out p)).2 = (step e (.out p)).2 := by
  obtain ⟨acc, hd, he⟩ := h.rx
  obtain ⟨hd', -, hprocD, houtD⟩ := Receive.step_spec d.rx acc p hd
  obtain ⟨he', -, hprocE, houtE⟩ := Receive.step_spec e.rx acc p he
  unfold step
  simp only
  rw [← h.outArmed]
  split
  · refine ⟨⟨⟨_, hd', he'⟩, ?_, h.tx, h.mem, h.pending, rfl⟩, ?_⟩
    · rw [hprocD, hprocE]
      exact h.rxproc
    · rw [houtD, houtE, h.rxproc]
  · exact ⟨h, rfl⟩

theorem same_step : Simulates step step Same id id := by
  intro d e i h
  simp only [List.map_id]
  cases i with
  | canSend => exact ⟨h, by simp only [step, h.tx.canSend]⟩
  | send data size => exact same_send h data size
  | complete epnum => exact same_complete h epnum
  | out p => exact same_out h p
  | setup req => exact ⟨⟨h.rx, h.rxproc, h.tx, h.mem, h.pending, h.outArmed⟩, rfl⟩
  | ep0Packet bytes => exact ⟨⟨h.rx, h.rxproc, h.tx, h.mem, h.pending, h.outArmed⟩, rfl⟩
  | ep0Recv around => exact ⟨⟨h.rx, h.rxproc, h.tx, h.mem, h.pending, h.outArmed⟩, rfl⟩
  | poke mem => exact ⟨⟨h.rx, h.rxproc, h.tx, rfl, h.pending, h.outArmed⟩, rfl⟩
  | reset => exact ⟨⟨h.rx, h.rxproc, h.tx, h.mem, rfl, rfl⟩, rfl⟩
  | init => exact ⟨⟨h.rx, h.rxproc, h.tx, h.mem, h.pending, rfl⟩, rfl⟩
  | deinit => exact ⟨⟨h.rx, h.rxproc, h.tx, h.mem, h.pending, rfl⟩, rfl⟩

/-! ## Reachable states -/

/-- What holds whatever the history, also across earlier resets. -/
structure Inv (d : Dev) : Prop where
  rx : ∃ acc, Receive.Holds d.rx acc
  rxproc : d.rx.rndisRxproc = true

theorem issue_rx (d : Dev) (t : Option Transmit.EpTx) : (issue d t).1.rx = d.rx := by
  cases t <;> rfl

theorem inv_step (d : Dev) (i : Input) (h : Inv d) : Inv (step d i).1 := by
  have hkeep : ∀ e : Dev, e.rx = d.rx → Inv e := by
    intro e he
    exact ⟨by rw [he]; exact h.rx, by rw [he]; exact h.rxproc⟩
  cases i with
  | out p =>
    unfold step
    simp only
    split
    · obtain ⟨acc, hacc⟩ := h.rx
      obtain ⟨hacc', -, hproc, -⟩ := Receive.step_spec d.rx acc p hacc
      exact ⟨⟨_, hacc'⟩, hproc.trans h.rxproc⟩
    · exact h
  | send data size => exact hkeep _ (issue_rx _ _)
  | complete epnum =>
    apply hkeep
    unfold step
    simp only
    split
    · split
      · rfl
      · exact issue_rx _ _
    · exact issue_rx _ _
  | _ => exact hkeep _ rfl

theorem inv_reachable {mem : Nat → UInt8} {d : Dev} (h : Reachable step (Dev.boot mem) d) :
    Inv d :=
  reachable_invariant inv_step (show Inv (Dev.boot mem) from ⟨⟨[], Receive.holds_boot⟩, rfl⟩) h

/-! ## After the reset -/

def completions (k : Nat) : List Input := List.replicate k (.complete rndisDataInEp)

/-- A newly initialised driver that is as good as new: it is ready, it sends frames and
delivers messages, and it can never be told from one that was just booted. -/
structure AsAfterBoot (d : Dev) : Prop where
  ready : Transmit.rndisCanSend d.tx = true
  sends : ∀ data (size : Int), 1 ≤ size → size ≤ ethMaxPacketSize →
    let frame := load d.mem data size.toNat
    (run step d (.send data size :: completions 3)).2 =
      .sent true :: (Transmit.firstTransfer frame :: Transmit.later frame).map .transfer
  delivers : ∀ (m : Receive.PacketMsg) (pad : Receive.Padding),
    (run step d ((m.packets pad).map .out)).2 =
      [.rxproc (DataPacket.dataLength m.bytes) m.data]
  same : ∀ is, (run step d is).2 = (run step (usbdRndisInit (Dev.boot d.mem)) is).2

theorem run_completions_idle (k : Nat) (d : Dev) (h : d.pending = none) :
    (run step d (completions k)).2 = [] := by
  have hstep : step d (.complete rndisDataInEp) = (d, []) := by
    unfold step
    simp only [if_true, h]
  induction k with
  | zero => rfl
  | succ k ih =>
    rw [completions, List.replicate_succ, run_cons, hstep]
    exact ih

theorem step_complete (d : Dev) (epnum : UInt8) (hep : epnum &&& 0x0F = rndisDataInEp &&& 0x0F)
    (hpending : d.pending.isSome) (hbusy : Transmit.Busy d.tx) :
    match Transmit.left d.mem d.tx with
    | [] => step d (.complete epnum) =
        ({ d with tx := { d.tx with state := .ready }, pending := none }, [])
    | b :: rest => ∃ x state, step d (.complete epnum) =
          ({ d with tx := { d.tx with state := state }, pending := some x }, [.transfer b]) ∧
        x.len = b.length ∧ Transmit.left d.mem { d.tx with state := state } = rest ∧
        Transmit.Busy { d.tx with state := state } := by
  obtain ⟨y, hy⟩ := Option.isSome_iff_exists.mp hpending
  have hspec := Transmit.complete_spec d.mem d.tx epnum hbusy hep
  have hstep : step d (.complete epnum) =
      issue { d with tx := (Transmit.usbdRndisDataIn d.mem d.tx epnum).1, pending := none }
        (Transmit.usbdRndisDataIn d.mem d.tx epnum).2 := by
    unfold step
    simp only [if_pos hep, hy]
  cases hl : Transmit.left d.mem d.tx with
  | nil =>
    rw [hl] at hspec
    rw [hstep, hspec]
    rfl
  | cons b rest =>
    rw [hl] at hspec
    obtain ⟨x, state, hr, hbytes, hleft, hbusy'⟩ := hspec
    refine ⟨x, state, ?_, ?_, hleft, hbusy'⟩
    · rw [hstep, hr, ← hbytes]
      rfl
    · rw [← hbytes, Transmit.bytes_length]

theorem run_completions (k : Nat) (d : Dev) (hbusy : Transmit.Busy d.tx)
    (hpending : d.pending.isSome) (hk : (Transmit.left d.mem d.tx).length < k) :
    (run step d (completions k)).2 = (Transmit.left d.mem d.tx).map .transfer := by
  induction k generalizing d with
  | zero => omega
  | succ k ih =>
    have hspec := step_complete d rndisDataInEp rfl hpending hbusy
    rw [completions, List.replicate_succ, run_cons]
    cases hl : Transmit.left d.mem d.tx with
    | nil =>
      rw [hl] at hspec
      rw [show step d (.complete rndisDataInEp) = _ from hspec]
      exact run_completions_idle k _ rfl
    | cons b rest =>
      rw [hl] at hspec hk
      obtain ⟨x, state, hstep, -, hleft, hbusy'⟩ := hspec
      rw [List.length_cons] at hk
      rw [hstep, List.map_cons, ← hleft]
      have hrest := ih { d with tx := { d.tx with state := state }, pending := some x } hbusy' rfl
        (by simp only [hleft]; omega)
      exact congrArg (Output.transfer b :: ·) hrest

theorem step_send (d : Dev) (data : Nat) (size : Int)
    (haccepts : Transmit.accepts d.tx size = true) :
    let frame := load d.mem data size.toNat
    ∃ tx x, step d (.send data size) =
        ({ d with tx := tx, pending := some x },
          [.sent true, .transfer (Transmit.firstTransfer frame)]) ∧
      x.len = (Transmit.firstTransfer frame).length ∧
      Transmit.left d.mem tx = Transmit.later frame ∧ tx.state = .sendingHdr := by
  intro frame
  obtain ⟨-, hpos, -⟩ := (Transmit.accepts_iff d.tx size).mp haccepts
  obtain ⟨x, hx, hbytes, hleft, hstate, -⟩ := Transmit.start_spec d.mem d.tx data size hpos
  refine ⟨(Transmit.start d.mem d.tx data size).1, x, ?_, ?_, hleft, hstate⟩
  · unfold step Transmit.rndisSend
    simp only [haccepts, if_true, hx, issue]
    rw [hbytes]
  · rw [← hbytes, Transmit.bytes_length]

theorem sends_of_ready (d : Dev) (hready : d.tx.state = .ready) (data : Nat) (size : Int)
    (hpos : 1 ≤ size) (hmax : size ≤ ethMaxPacketSize) :
    (run step d (.send data size :: completions 3)).2 =
      .sent true :: (Transmit.firstTransfer (load d.mem data size.toNat) ::
        Transmit.later (load d.mem data size.toNat)).map .transfer := by
  obtain ⟨tx, x, hstep, -, hleft, hstate⟩ := step_send d data size
    ((Transmit.accepts_iff d.tx size).mpr ⟨hready, hpos, hmax⟩)
  have hlater := Transmit.later_length (load d.mem data size.toNat)
  have hrest := run_completions 3 { d with tx := tx, pending := some x } (Or.inl hstate) rfl
    (by simp only [hleft]; omega)
  rw [run_cons, hstep, hrest]
  simp only [hleft, List.map_cons, List.cons_append, List.nil_append]

theorem step_out (d : Dev) (h : d.outArmed = true) (p : Receive.OutPacket) :
    step d (.out p) = ({ d with rx := (Receive.step d.rx p).1 },
      (Receive.step d.rx p).2.map fun c => .rxproc c.size c.data) := by
  unfold step
  simp only [h, if_true]

theorem run_out (d : Dev) (h : d.outArmed = true) (ps : List Receive.OutPacket) :
    (run step d (ps.map .out)).2 =
      (run Receive.step d.rx ps).2.map fun c => .rxproc c.size c.data := by
  induction ps generalizing d with
  | nil => rfl
  | cons p ps ih =>
    have hrest := ih { d with rx := (Receive.step d.rx p).1 } h
    rw [List.map_cons, run_cons, step_out d h p, run_cons, List.map_append, ← hrest]

theorem delivers_of_boundary (d : Dev) (hrx : Receive.Holds d.rx [])
    (hproc : d.rx.rndisRxproc = true) (harmed : d.outArmed = true) (m : Receive.PacketMsg)
    (pad : Receive.Padding) :
    (run step d ((m.packets pad).map .out)).2 =
      [.rxproc (DataPacket.dataLength m.bytes) m.data] := by
  obtain ⟨-, -, -, hout⟩ := Receive.run_spec d.rx [] hrx (m.packets pad)
  rw [run_out d harmed, hout, hproc, if_pos rfl, (Receive.collect_message m pad).2.1]
  simp only [List.map_cons, List.map_nil, (Receive.callOf_data m).1]
  rfl

/-! ## When it is as after boot -/

def Between (d : Dev) : Prop := d.tx.state = .ready ∧ d.rx.rndisReceived = 0

def single (k : Nat) (h : k ≤ 20) : Receive.OutPacket where
  bytes := bytes32 1 ++ bytes32 (UInt32.ofNat (44 + k)) ++ bytes32 36 ++
    bytes32 (UInt32.ofNat k) ++ List.replicate (28 + k) 7
  fits := by simp [rndisDataOutSz]; omega

/-- A header that is left over announces one length, so it fits at most one of these
messages. -/
theorem leftover_announced (acc : List UInt8) (hlen : 64 ≤ acc.length) (k : Nat) (hk : k ≤ 20)
    (h : (Receive.collect acc (single k hk)).2.flatMap Receive.calls ≠ []) :
    (DataPacket.messageLength acc).toNat = acc.length + 44 + k := by
  have hsize : (single k hk).bytes.length = 44 + k := by
    simp [single]
    omega
  unfold Receive.collect at h
  split at h
  · simp [Receive.calls] at h
  split at h
  · simp only [List.flatMap_cons, List.flatMap_nil, List.append_nil, Receive.calls] at h
    split at h
    · rename_i hok
      have hnamed := hok.1.2.2
      rw [DataPacket.messageLength, word32At_append_left _ _ _ (by omega), List.length_append,
        hsize] at hnamed
      unfold DataPacket.messageLength
      omega
    · simp at h
  · simp at h

theorem single_delivered :
    (run Receive.step Receive.Rx.boot [single 1 (by decide)]).2 ≠ [] ∧
      (run Receive.step Receive.Rx.boot [single 2 (by decide)]).2 ≠ [] := by
  decide +kernel

theorem between_of_same (d : Dev) (h : Inv d)
    (hsame : ∀ is, (run step (usbdRndisInit (busReset d)) is).2 =
      (run step (usbdRndisInit (Dev.boot d.mem)) is).2) : Between d := by
  constructor
  · have hready := hsame [.canSend]
    simpa [step, Transmit.rndisCanSend, usbdRndisInit, busReset, Dev.boot, Transmit.Tx.boot]
      using hready
  · obtain ⟨acc, hacc⟩ := h.rx
    have hseen : ∀ k (hk : k ≤ 20), (run Receive.step Receive.Rx.boot [single k hk]).2 ≠ [] →
        (Receive.collect acc (single k hk)).2.flatMap Receive.calls ≠ [] := by
      intro k hk hboot hnone
      obtain ⟨-, -, -, hout⟩ := Receive.step_spec d.rx acc (single k hk) hacc
      rw [hnone, ite_self] at hout
      have hd := run_out (usbdRndisInit (busReset d)) rfl [single k hk]
      have hb := run_out (usbdRndisInit (Dev.boot d.mem)) rfl [single k hk]
      have hrx : (run Receive.step (usbdRndisInit (busReset d)).rx [single k hk]).2 = [] := by
        rw [run_cons, run_nil, List.append_nil]
        exact hout
      rw [hrx, List.map_nil, hsame, hb] at hd
      exact hboot (List.map_eq_nil_iff.mp hd)
    rcases Nat.eq_zero_or_pos acc.length with hz | hpos
    · apply UInt32.toNat_inj.mp
      rw [hacc.received, hz]
      rfl
    · have hwhole := hacc.whole
      unfold rndisDataOutSz at hwhole
      have h1 := leftover_announced acc (by omega) 1 _ (hseen 1 _ single_delivered.1)
      have h2 := leftover_announced acc (by omega) 2 _ (hseen 2 _ single_delivered.2)
      omega

theorem as_after_boot_of_between (d : Dev) (h : Inv d) (hd : Between d) :
    AsAfterBoot (usbdRndisInit (busReset d)) := by
  obtain ⟨hready, hreceived⟩ := hd
  have hrx : Receive.Holds d.rx [] := Receive.holds_empty _ hreceived
  have hsame : Same (usbdRndisInit (busReset d)) (usbdRndisInit (Dev.boot d.mem)) :=
    ⟨⟨[], hrx, Receive.holds_boot⟩, h.rxproc, Or.inl ⟨hready, rfl⟩, rfl, rfl, rfl⟩
  refine ⟨?_, ?_, ?_, ?_⟩
  · exact decide_eq_true hready
  · exact sends_of_ready _ hready
  · exact delivers_of_boundary _ hrx h.rxproc rfl
  · intro is
    have hout := (same_step.run hsame is).2
    rw [List.map_id, List.map_id] at hout
    exact hout

/-- Wherever the run is cut, the driver is as after boot exactly when it was between
frames. `usbd_rndis_deinit` makes no difference. -/
theorem as_after_boot_iff (mem : Nat → UInt8) (is : List Input) :
    let d := (run step (Dev.boot mem) is).1
    (AsAfterBoot (usbdRndisInit (busReset d)) ↔ Between d) ∧
      (AsAfterBoot (usbdRndisInit (usbdRndisDeinit (busReset d))) ↔ Between d) := by
  intro d
  have hinv : Inv d := inv_reachable ⟨is, rfl⟩
  have hiff : AsAfterBoot (usbdRndisInit (busReset d)) ↔ Between d :=
    ⟨fun h => between_of_same d hinv h.same, as_after_boot_of_between d hinv⟩
  -- `usbd_rndis_deinit` only closes endpoints that `usbd_rndis_init` opens again.
  exact ⟨hiff, hiff⟩

def cutInFrame : List Input := [.init, .send 0 1]

def cutInMessage : List Input :=
  [.init, .out ⟨bytes32 1 ++ bytes32 108 ++ List.replicate 56 0, by decide⟩]

/-- After the cut frame nothing can be sent any more. After the cut message the next one
is lost. -/
theorem not_as_after_boot :
    (¬ ∀ is, AsAfterBoot (usbdRndisInit (busReset (run step (Dev.boot fun _ => 0) is).1))) ∧
    (let d := (run step (Dev.boot fun _ => 0) cutInFrame).1
     (run step (usbdRndisInit (busReset d)) [.canSend, .complete rndisDataInEp, .send 0 1]).2 =
      [.canSend false, .sent false]) ∧
    (let d := (run step (Dev.boot fun _ => 0) cutInMessage).1
     (run step (usbdRndisInit (busReset d)) [.out (single 1 (by decide))]).2 = []) := by
  have hframe : (let d := (run step (Dev.boot fun _ => 0) cutInFrame).1
     (run step (usbdRndisInit (busReset d)) [.canSend, .complete rndisDataInEp, .send 0 1]).2 =
      [.canSend false, .sent false]) := by decide +kernel
  refine ⟨fun h => ?_, hframe, by decide +kernel⟩
  have hready := (h cutInFrame).ready
  have hbusy : Transmit.rndisCanSend
      (usbdRndisInit (busReset (run step (Dev.boot fun _ => 0) cutInFrame).1)).tx = false := by
    decide +kernel
  rw [hbusy] at hready
  exact absurd hready (by decide)

end Lrndis.Device
