import Lrndis.Control.Completion
import Lrndis.Device.Reinit

/-!
# The statistics that the host reads

`OID_GEN_RCV_OK` and `OID_GEN_XMIT_OK` should tell how many frames went each way. The
received ones are counted where they are handed over. There is a counter for the sent ones
too, but no code that counts.
-/

namespace Lrndis.Device

open Mem Run

/-! ## The traffic -/

/-- What an observer of the data path knows, who does not look into the driver. -/
structure Traffic where
  handed : Nat
  /-- how much of the message of the last accepted frame has not been transferred yet -/
  underway : Option Nat
  /-- the accepted frames whose last transfer has completed -/
  completed : Nat

def Traffic.zero : Traffic where
  handed := 0
  underway := none
  completed := 0

def Output.handsOver : Output → Bool
  | .rxproc _ _ => true
  | _ => false

def Traffic.transferred (t : Traffic) (n : Nat) : Traffic :=
  match t.underway with
  | none => t
  | some k =>
    if n = k then { t with underway := none, completed := t.completed + 1 }
    else { t with underway := some (k - n) }

/-- An accepted frame is underway with all of its message, the padding included. A transfer
counts when it completes. -/
def Traffic.note (t : Traffic) (d : Dev) : Input → Traffic
  | .send data size =>
    if .sent true ∈ (step d (.send data size)).2 then
      { t with underway := some (Transmit.total size.toNat) }
    else t
  | .complete epnum =>
    if epnum &&& 0x0F = rndisDataInEp &&& 0x0F then
      match d.pending with
      | none => t
      | some x => t.transferred x.len
    else t
  | i => { t with handed := t.handed + (step d i).2.countP Output.handsOver }

theorem transferred_last (t : Traffic) (n : Nat) (h : t.underway = some n) :
    t.transferred n = { t with underway := none, completed := t.completed + 1 } := by
  unfold Traffic.transferred
  simp only [h, if_true]

theorem transferred_more (t : Traffic) (n k : Nat) (h : t.underway = some (n + k))
    (hpos : 0 < k) : t.transferred n = { t with underway := some k } := by
  unfold Traffic.transferred
  simp only [h]
  rw [if_neg (by omega), Nat.add_sub_cancel_left]

def traffic (mem : Nat → UInt8) (is : List Input) : Traffic :=
  observe step Traffic.note (Dev.boot mem) Traffic.zero is

/-! ## The queries -/

def Input.OnControl : Input → Prop
  | .setup _ | .ep0Packet _ | .ep0Recv _ => True
  | _ => False

def Asks (d : Dev) (oid : UInt32) : Prop :=
  d.ctl.rx.isSome ∧
    Control.GenericMsg.messageType d.ctl.ctl.encapsulatedBuffer.bytes = Control.remoteNdisQueryMsg ∧
    Control.QueryMsg.oid d.ctl.ctl.encapsulatedBuffer.bytes = oid

/-- A query of `oid` is answered with `value`, whatever goes over the control endpoint
before. The information buffer of an answer is at 24. -/
def Answers (d : Dev) (oid value : UInt32) : Prop :=
  ∀ cs around, (∀ i ∈ cs, i.OnControl) → Asks (run step d cs).1 oid →
    (step (run step d cs).1 (.ep0Recv around)).1.ctl.ctl.encapsulatedBuffer.word32
      Control.queryCmpltSize = value

structure Reports (d : Dev) (t : Traffic) : Prop where
  rcvOk : Answers d Control.oidGenRcvOk (UInt32.ofNat t.handed)
  xmitOk : Answers d Control.oidGenXmitOk (UInt32.ofNat t.completed)

/-! ## What a query is answered -/

theorem run_onControl (d : Dev) (cs : List Input) (h : ∀ i ∈ cs, i.OnControl) :
    (run step d cs).1.rx = d.rx := by
  have hstep : ∀ (d : Dev) (i : Input), i.OnControl → (step d i).1.rx = d.rx := by
    intro d i hi
    cases i with
    | setup req => rfl
    | ep0Packet bytes => rfl
    | ep0Recv around => rfl
    | _ => exact hi.elim
  induction cs generalizing d with
  | nil => rfl
  | cons i cs ih =>
    obtain ⟨hi, hcs⟩ := List.forall_mem_cons.mp h
    exact (ih _ hcs).trans (hstep d i hi)

theorem answer_value (d : Dev) (oid : UInt32) (around : UInt32 → UInt32)
    (value : UsbEthStat → UInt32) (hoid : ∀ s stat, Control.queryAnswer s stat oid =
      .cmplt32 Control.rndisStatusSuccess (value stat)) (h : Asks d oid) :
    (step d (.ep0Recv around)).1.ctl.ctl.encapsulatedBuffer.word32 Control.queryCmpltSize =
      value d.rx.usbEthStat := by
  obtain ⟨hrx, htype, hmsg⟩ := h
  obtain ⟨r, hr⟩ := Option.isSome_iff_exists.mp hrx
  unfold step control Control.step
  simp only [hr]
  rw [Control.usbdRndisEp0Recv_query d.ctl.ctl d.rx.usbEthStat around htype]
  unfold Control.rndisQuery
  simp only [hmsg, hoid]
  exact Buffer.word32_setWord32 _ _ _ (by decide)

def query (oid : UInt32) : List Input :=
  [.setup ⟨0x21, 28⟩,
    .ep0Packet (bytes32 Control.remoteNdisQueryMsg ++ (bytes32 28 ++ (bytes32 1 ++
      (bytes32 oid ++ List.replicate 12 0))))]

theorem query_onControl (oid : UInt32) : ∀ i ∈ query oid, i.OnControl := by
  simp [query, Input.OnControl]

theorem query_asks (d : Dev) (oid : UInt32) : Asks (run step d (query oid)).1 oid := by
  have hbytes : ∀ (m : List UInt8) (i : Nat), i + 4 ≤ m.length → m.length ≤ Control.encBufSize →
      word32At (d.ctl.ctl.encapsulatedBuffer.write 0 m).bytes i = word32At m i := by
    intro m i hi hm
    have htake := Buffer.take_write d.ctl.ctl.encapsulatedBuffer 0 m (by omega)
    rw [← word32At_take _ (0 + m.length) i (by omega), htake]
    rfl
  refine ⟨rfl, ?_, ?_⟩
  · refine (hbytes _ 0 ?_ ?_).trans (word32At_bytes32 _ _)
    · simp
    · simp
      decide
  · refine (hbytes _ 12 ?_ ?_).trans ?_
    · simp
    · simp
      decide
    · rw [word32At_skip _ _ 8, word32At_skip _ _ 4, word32At_skip _ _ 0, word32At_bytes32]

theorem answers_iff (d : Dev) (oid v : UInt32) (value : UsbEthStat → UInt32)
    (hoid : ∀ s stat, Control.queryAnswer s stat oid =
      .cmplt32 Control.rndisStatusSuccess (value stat)) :
    Answers d oid v ↔ value d.rx.usbEthStat = v := by
  constructor
  · intro h
    have hq := h (query oid) (fun _ => 0) (query_onControl oid) (query_asks d oid)
    rwa [answer_value _ oid _ value hoid (query_asks d oid),
      run_onControl d _ (query_onControl oid)] at hq
  · intro h cs around hcs hasks
    rw [answer_value _ oid around value hoid hasks, run_onControl d cs hcs]
    exact h

theorem reports_iff (d : Dev) (t : Traffic) :
    Reports d t ↔ d.rx.usbEthStat.rxok = UInt32.ofNat t.handed ∧
      d.rx.usbEthStat.txok = UInt32.ofNat t.completed := by
  have hrcv := answers_iff d Control.oidGenRcvOk (UInt32.ofNat t.handed) UsbEthStat.rxok
    (fun _ _ => rfl)
  have hxmit := answers_iff d Control.oidGenXmitOk (UInt32.ofNat t.completed) UsbEthStat.txok
    (fun _ _ => rfl)
  rw [← hrcv, ← hxmit]
  exact ⟨fun h => ⟨h.rcvOk, h.xmitOk⟩, fun h => ⟨h.1, h.2⟩⟩

/-! ## The counters and the traffic -/

/-- No completion comes when the driver owes nothing more of the frame. -/
def EndsNoFrame (d : Dev) : Input → Prop
  | .complete epnum => epnum &&& 0x0F = rndisDataInEp &&& 0x0F → d.pending.isSome →
      Transmit.left d.mem d.tx ≠ []
  | _ => True

instance (d : Dev) (i : Input) : Decidable (EndsNoFrame d i) := by
  cases i <;> unfold EndsNoFrame <;> infer_instance

/-- `rxok` follows the calls, `txok` nothing. The outstanding transfer and the ones that the
driver still owes are what is left of the frame. -/
structure Follows (d : Dev) (t : Traffic) : Prop where
  inv : Inv d
  rxok : d.rx.usbEthStat.rxok = UInt32.ofNat t.handed
  txok : d.rx.usbEthStat.txok = 0
  underway : ∀ x, d.pending = some x → Transmit.Busy d.tx ∧
    t.underway = some (x.len + (Transmit.left d.mem d.tx).flatten.length)

theorem Follows.of_rx {d d' : Dev} {t t' : Traffic} (h : Follows d t) (hrx : d'.rx = d.rx)
    (hhanded : t'.handed = t.handed)
    (hunderway : ∀ x, d'.pending = some x → Transmit.Busy d'.tx ∧
      t'.underway = some (x.len + (Transmit.left d'.mem d'.tx).flatten.length)) :
    Follows d' t' where
  inv := by
    refine ⟨?_, ?_⟩
    · rw [hrx]
      exact h.inv.rx
    · rw [hrx]
      exact h.inv.rxproc
  rxok := by
    rw [hrx, hhanded]
    exact h.rxok
  txok := by
    rw [hrx]
    exact h.txok
  underway := hunderway

theorem follows_boot (mem : Nat → UInt8) : Follows (Dev.boot mem) Traffic.zero where
  inv := inv_reachable ⟨[], rfl⟩
  rxok := rfl
  txok := rfl
  underway := by
    rintro x ⟨⟩

theorem tally_counts (es : List Receive.Ending) (stat : UsbEthStat) :
    (es.foldl Receive.tally stat).rxok =
        stat.rxok + UInt32.ofNat (es.flatMap Receive.calls).length ∧
      (es.foldl Receive.tally stat).txok = stat.txok := by
  induction es generalizing stat with
  | nil => exact ⟨(UInt32.add_zero _).symm, rfl⟩
  | cons e es ih =>
    have hone : (Receive.tally stat e).rxok =
          stat.rxok + UInt32.ofNat (Receive.calls e).length ∧
        (Receive.tally stat e).txok = stat.txok := by
      unfold Receive.tally Receive.calls
      cases e with
      | overflow => exact ⟨(UInt32.add_zero _).symm, rfl⟩
      | message m =>
        by_cases hn : Receive.Named m
        · by_cases hf : Receive.Fits m
          · simp [hn, hf]
          · simp [hn, hf]
        · simp [hn]
    obtain ⟨hrx, htx⟩ := ih (Receive.tally stat e)
    rw [List.foldl_cons, hrx, htx, hone.1, hone.2, List.flatMap_cons, List.length_append,
      UInt32.ofNat_add, UInt32.add_assoc]
    exact ⟨rfl, rfl⟩

theorem follows_out (d : Dev) (t : Traffic) (p : Receive.OutPacket) (h : Follows d t) :
    Follows (step d (.out p)).1 (t.note d (.out p)) := by
  have hinv := inv_step d (.out p) h.inv
  obtain ⟨acc, hacc⟩ := h.inv.rx
  obtain ⟨-, hstat, -, hcalls⟩ := Receive.step_spec d.rx acc p hacc
  obtain ⟨hrx, htx⟩ := tally_counts (Receive.collect acc p).2 d.rx.usbEthStat
  rw [h.inv.rxproc, if_pos rfl] at hcalls
  rw [← hstat, ← hcalls] at hrx
  rw [← hstat] at htx
  have hall : ∀ cs : List Receive.RxprocCall,
      (cs.map fun c => Output.rxproc c.size c.data).countP Output.handsOver = cs.length := by
    intro cs
    rw [List.countP_map]
    exact List.countP_eq_length.mpr fun _ _ => rfl
  have hnote : t.note d (.out p) =
      { t with handed := t.handed + (step d (.out p)).2.countP Output.handsOver } := rfl
  by_cases harmed : d.outArmed = true
  · rw [step_out d harmed p, hall] at hnote
    rw [hnote]
    rw [step_out d harmed p] at hinv ⊢
    refine ⟨hinv, ?_, htx.trans h.txok, h.underway⟩
    simp only
    rw [UInt32.ofNat_add, ← h.rxok]
    exact hrx
  · have hstep : step d (.out p) = (d, []) := by
      unfold step
      simp only [if_neg harmed]
    rw [hstep] at hnote
    rw [hstep, hnote]
    exact h

theorem follows_send (d : Dev) (t : Traffic) (data : Nat) (size : Int) (h : Follows d t) :
    Follows (step d (.send data size)).1 (t.note d (.send data size)) := by
  unfold Traffic.note
  by_cases haccepts : Transmit.accepts d.tx size = true
  · obtain ⟨tx, x, hstep, hlen, hleft, hstate⟩ := step_send d data size haccepts
    simp only [hstep]
    rw [if_pos (List.mem_cons_self ..)]
    refine h.of_rx rfl rfl ?_
    rintro y ⟨⟩
    refine ⟨Or.inl hstate, ?_⟩
    simp only
    rw [hleft, hlen, Transmit.transfers_length, load_length]
  · have hstep : step d (.send data size) = (d, [.sent false]) := by
      unfold step Transmit.rndisSend
      simp only [if_neg haccepts]
      rfl
    simp only [hstep]
    rw [if_neg (by simp)]
    exact h

theorem complete_outstanding (d : Dev) (t : Traffic) (epnum : UInt8) (h : Follows d t)
    (hep : epnum &&& 0x0F = rndisDataInEp &&& 0x0F) {x : Transmit.EpTx}
    (hp : d.pending = some x) :
    (¬ EndsNoFrame d (.complete epnum) ∧
        step d (.complete epnum) =
          ({ d with tx := { d.tx with state := .ready }, pending := none }, []) ∧
        t.transferred x.len = { t with underway := none, completed := t.completed + 1 }) ∨
      (EndsNoFrame d (.complete epnum) ∧ ∃ tx y out,
        step d (.complete epnum) = ({ d with tx := tx, pending := some y }, out) ∧
        Transmit.Busy tx ∧ t.transferred x.len =
          { t with underway := some (y.len + (Transmit.left d.mem tx).flatten.length) }) := by
  obtain ⟨hbusy, hunderway⟩ := h.underway x hp
  have hsome : d.pending.isSome := by rw [hp]; rfl
  have hspec := step_complete d epnum hep hsome hbusy
  cases hl : Transmit.left d.mem d.tx with
  | nil =>
    rw [hl] at hspec hunderway
    left
    exact ⟨fun hends => hends hep hsome hl, hspec, transferred_last t x.len hunderway⟩
  | cons b rest =>
    rw [hl] at hspec hunderway
    obtain ⟨y, state, hstep, hlen, hleft, hbusy'⟩ := hspec
    have hb := Transmit.left_length_pos d.mem d.tx b (by rw [hl]; exact List.mem_cons_self ..)
    rw [List.flatten_cons, List.length_append] at hunderway
    right
    refine ⟨fun _ _ hnil => ?_, _, y, _, hstep, hbusy', ?_⟩
    · rw [hl] at hnil
      exact List.cons_ne_nil b rest hnil
    · rw [hleft, hlen]
      exact transferred_more t x.len _ hunderway (by omega)

theorem complete_cases (d : Dev) (t : Traffic) (epnum : UInt8) (h : Follows d t) :
    (EndsNoFrame d (.complete epnum) ∧ step d (.complete epnum) = (d, []) ∧
        t.note d (.complete epnum) = t) ∨
      (¬ EndsNoFrame d (.complete epnum) ∧
        step d (.complete epnum) =
          ({ d with tx := { d.tx with state := .ready }, pending := none }, []) ∧
        t.note d (.complete epnum) =
          { t with underway := none, completed := t.completed + 1 }) ∨
      (EndsNoFrame d (.complete epnum) ∧ ∃ tx x out,
        step d (.complete epnum) = ({ d with tx := tx, pending := some x }, out) ∧
        Transmit.Busy tx ∧ t.note d (.complete epnum) =
          { t with underway := some (x.len + (Transmit.left d.mem tx).flatten.length) }) := by
  by_cases hep : epnum &&& 0x0F = rndisDataInEp &&& 0x0F
  · have hnote : t.note d (.complete epnum) =
        match d.pending with
        | none => t
        | some x => t.transferred x.len := if_pos hep
    rw [hnote]
    cases hp : d.pending with
    | none =>
      refine Or.inl ⟨?_, ?_, rfl⟩
      · intro _ hsome
        rw [hp] at hsome
        cases hsome
      · unfold step
        simp only [if_pos hep, hp]
    | some x => exact Or.inr (complete_outstanding d t epnum h hep hp)
  · refine Or.inl ⟨fun h => absurd h hep, ?_, if_neg hep⟩
    unfold step
    simp only [if_neg hep, Transmit.other_endpoint d.mem d.tx epnum hep]
    rfl

theorem follows_complete (d : Dev) (t : Traffic) (epnum : UInt8) (h : Follows d t) :
    Follows (step d (.complete epnum)).1 (t.note d (.complete epnum)) := by
  rcases complete_cases d t epnum h with
    ⟨-, hstep, hnote⟩ | ⟨-, hstep, hnote⟩ | ⟨-, tx, x, out, hstep, hbusy, hnote⟩
  · rw [hstep, hnote]
    exact h
  · rw [hstep, hnote]
    refine h.of_rx rfl rfl ?_
    rintro y ⟨⟩
  · rw [hstep, hnote]
    refine h.of_rx rfl rfl ?_
    rintro y ⟨⟩
    exact ⟨hbusy, rfl⟩

theorem follows_step (d : Dev) (t : Traffic) (i : Input) (h : Follows d t) :
    Follows (step d i).1 (t.note d i) := by
  cases i with
  | send data size => exact follows_send d t data size h
  | complete epnum => exact follows_complete d t epnum h
  | out p => exact follows_out d t p h
  | poke mem =>
    refine h.of_rx rfl rfl ?_
    intro x hx
    obtain ⟨hbusy, hunderway⟩ := h.underway x hx
    refine ⟨hbusy, hunderway.trans ?_⟩
    rw [Transmit.left_length_eq d.mem mem]
    rfl
  | reset =>
    refine h.of_rx rfl rfl ?_
    rintro x ⟨⟩
  | _ => exact h.of_rx rfl rfl h.underway

/-! ## When the host reads what it saw -/

theorem note_completed (d : Dev) (t : Traffic) (i : Input) (h : Follows d t) :
    (t.note d i).completed = if EndsNoFrame d i then t.completed else t.completed + 1 := by
  cases i with
  | send data size =>
    rw [if_pos (show EndsNoFrame d (.send data size) from trivial)]
    change (if .sent true ∈ (step d (.send data size)).2 then _ else t).completed = _
    split <;> rfl
  | complete epnum =>
    rcases complete_cases d t epnum h with ⟨hends, -, hnote⟩ | ⟨hends, -, hnote⟩ | ⟨hends, hmore⟩
    · rw [if_pos hends, hnote]
    · rw [if_neg hends, hnote]
    · obtain ⟨tx, x, out, -, -, hnote⟩ := hmore
      rw [if_pos hends, hnote]
  | _ => exact (if_pos trivial).symm

theorem rcvOk_right (mem : Nat → UInt8) (is : List Input) :
    Answers (run step (Dev.boot mem) is).1 Control.oidGenRcvOk
      (UInt32.ofNat (traffic mem is).handed) := by
  have h := observe_invariant follows_step (follows_boot mem) is
  exact (answers_iff _ _ _ UsbEthStat.rxok fun _ _ => rfl).mpr h.rxok

/-- The host reads what it saw all along exactly as long as no frame gets to its end. -/
theorem statistics_right_iff (mem : Nat → UInt8) (is : List Input) :
    (∀ p, p <+: is → Reports (run step (Dev.boot mem) p).1 (traffic mem p)) ↔
      Along step EndsNoFrame (Dev.boot mem) is := by
  apply observe_iff_along (J := Follows) follows_step _ (follows_boot mem)
  · rw [reports_iff]
    exact ⟨rfl, rfl⟩
  · intro d t i hJ hP
    have hJ' := follows_step d t i hJ
    rw [reports_iff, hJ.txok] at hP
    rw [reports_iff, hJ'.txok, note_completed d t i hJ, and_iff_right hJ'.rxok]
    split
    · rename_i hends
      exact iff_of_true hP.2 hends
    · rename_i hends
      rw [UInt32.ofNat_add, ← hP.2]
      exact iff_of_false (by decide) hends

def oneSent : List Input := [.init, .send 0 1, .complete rndisDataInEp]

theorem sent_uncounted :
    (¬ ∀ mem is p, p <+: is → Reports (run step (Dev.boot mem) p).1 (traffic mem p)) ∧
    (traffic (fun _ => 0) oneSent).completed = 1 ∧
    (let d := (run step (Dev.boot fun _ => 0)
      (oneSent ++ query Control.oidGenXmitOk ++ [.ep0Recv fun _ => 0])).1
     d.ctl.ctl.encapsulatedBuffer.word32 Control.queryCmpltSize = 0) := by
  have hcompleted : (traffic (fun _ => 0) oneSent).completed = 1 := by decide +kernel
  have hzero : (run step (Dev.boot fun _ => 0) oneSent).1.rx.usbEthStat.txok = 0 := by
    decide +kernel
  refine ⟨fun h => ?_, hcompleted, by decide +kernel⟩
  have hreports := ((reports_iff _ _).mp (h (fun _ => 0) oneSent _ List.prefix_rfl)).2
  rw [hcompleted, hzero] at hreports
  exact absurd hreports (by decide)

end Lrndis.Device
