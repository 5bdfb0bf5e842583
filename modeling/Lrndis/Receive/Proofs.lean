import Lrndis.App.Mailbox
import Lrndis.Receive.Refinement

/-!
# What the OUT path guarantees

First for whole runs of packets, then the safety of the calls and the delivery of
well-formed messages.
-/

namespace Lrndis.Receive

open Run

/-! ## Runs -/

theorem run_spec (s : Rx) (acc : List UInt8) (h : Holds s acc) (ps : List OutPacket) :
    Holds (run step s ps).1 (run collect acc ps).1 ∧
      (run step s ps).1.usbEthStat = (run collect acc ps).2.foldl tally s.usbEthStat ∧
      (run step s ps).1.rndisRxproc = s.rndisRxproc ∧
      (run step s ps).2 =
        if s.rndisRxproc then (run collect acc ps).2.flatMap calls else [] := by
  induction ps generalizing s acc with
  | nil => exact ⟨h, rfl, rfl, by simp⟩
  | cons p ps ih =>
    obtain ⟨h1, hstat1, hproc1, hout1⟩ := step_spec s acc p h
    obtain ⟨h2, hstat2, hproc2, hout2⟩ := ih _ _ h1
    refine ⟨h2, ?_, hproc2.trans hproc1, ?_⟩
    · rw [run_cons, run_cons, hstat2, hstat1, List.foldl_append]
    · rw [run_cons, run_cons, hout2, hout1, hproc1, List.flatMap_append]
      split <;> rfl

def endings (ps : List OutPacket) : List Ending := (run collect [] ps).2

theorem collect_room (acc : List UInt8) (p : OutPacket) (m : List UInt8)
    (h : .message m ∈ (collect acc p).2) : m.length ≤ rndisRxBufferSize := by
  unfold collect at h
  split at h
  · simp at h
  split at h
  · simp only [List.mem_singleton, Ending.message.injEq] at h
    rw [h, List.length_append]
    omega
  · simp at h

theorem endings_room (ps : List OutPacket) (m : List UInt8) (h : .message m ∈ endings ps) :
    m.length ≤ rndisRxBufferSize :=
  outputs_along (C := fun _ _ => True) (I := fun _ => True)
    (P := fun e => ∀ m, e = .message m → m.length ≤ rndisRxBufferSize)
    (fun _ _ _ _ => trivial)
    (fun acc p _ _ e he m hm => collect_room acc p m (by rw [← hm]; exact he))
    trivial (along_of_forall collect _ (fun _ _ => trivial) [] ps) _ h m rfl

theorem boot_calls (ps : List OutPacket) :
    (run step Rx.boot ps).2 = (endings ps).flatMap calls := by
  have := (run_spec Rx.boot [] holds_boot ps).2.2.2
  rw [this]
  rfl

/-! ## Safety of the calls -/

/-- The slice starts after the header and ends within the received bytes, and
`on_packet` has room for it. -/
structure Safe (c : RxprocCall) : Prop where
  after_header : DataPacket.size ≤ c.start.toNat
  received : c.start.toNat + c.size.toNat ≤ c.message.length
  short : c.size.toNat ≤ 1514
  room : ∀ b, (App.onPacket b c.data c.size).isSome

def InRange (m : List UInt8) : Prop :=
  36 ≤ (DataPacket.dataOffset m).toNat ∧ (DataPacket.dataOffset m).toNat + 8 ≤ m.length

theorem start_toNat (m : List UInt8) (h : (DataPacket.dataOffset m).toNat + 8 < 2 ^ 32) :
    (callOf m).start.toNat = (DataPacket.dataOffset m).toNat + 8 := by
  unfold callOf
  rw [UInt32.toNat_add, show DataPacket.offsetofDataOffset.toNat = 8 from rfl]
  omega

theorem safe_iff (m : List UInt8) (hroom : m.length ≤ rndisRxBufferSize) (hfits : Fits m) :
    Safe (callOf m) ↔ InRange m := by
  have hoff := (DataPacket.dataOffset m).toNat_lt
  have hlen := (DataPacket.dataLength m).toNat_lt
  have h8 : DataPacket.offsetofDataOffset.toNat = 8 := rfl
  unfold rndisRxBufferSize ethMaxPacketSize ethHeaderSize rndisMtu DataPacket.size at hroom
  unfold Fits at hfits
  rw [UInt32.toNat_add, UInt32.toNat_add, h8] at hfits
  constructor
  · rintro ⟨hstart, hend, -, -⟩
    unfold DataPacket.size at hstart
    simp only [callOf, UInt32.toNat_add, h8] at hstart hend
    unfold InRange
    omega
  · rintro ⟨h36, hle⟩
    have hstart := start_toNat m (by omega)
    have hsize : (callOf m).size = DataPacket.dataLength m := rfl
    have hmsg : (callOf m).message = m := rfl
    have hshort : (callOf m).size.toNat ≤ 1514 := by
      rw [hsize]
      omega
    refine ⟨?_, ?_, hshort, fun b => (App.onPacket_isSome_iff b _ _).mpr hshort⟩
    · unfold DataPacket.size
      omega
    · rw [hstart, hsize, hmsg]
      omega

/-- Every call is safe exactly when every message that passes the driver's tests has
its data offset in range. -/
theorem calls_safe_iff (ps : List OutPacket) :
    (∀ c ∈ (run step Rx.boot ps).2, Safe c) ↔
      ∀ m, .message m ∈ endings ps → Named m → Fits m → InRange m := by
  rw [boot_calls]
  simp only [List.mem_flatMap, forall_exists_index, and_imp]
  constructor
  · intro h m hm hnamed hfits
    rw [← safe_iff m (endings_room ps m hm) hfits]
    exact h (callOf m) _ hm (by simp [calls, hnamed, hfits])
  · intro h c e he hc
    cases e with
    | overflow => simp [calls] at hc
    | message m =>
      simp only [calls] at hc
      split at hc
      · rename_i hok
        rw [List.mem_singleton.mp hc, safe_iff m (endings_room ps m he) hok.2]
        exact h m he hok.1 hok.2
      · simp at hc

def shortMessage (offset length : UInt32) : OutPacket where
  bytes := Mem.bytes32 1 ++ Mem.bytes32 52 ++ Mem.bytes32 offset ++ Mem.bytes32 length ++
    List.replicate 36 0
  fits := by simp [rndisDataOutSz]

/-- Offset 0 hands the header itself to the callback. An offset near `2 ^ 32` wraps and
hands over 2044 bytes, more than `received` has room for. -/
theorem calls_unsafe :
    (¬ ∀ ps, ∀ c ∈ (run step Rx.boot ps).2, Safe c) ∧
    (∃ c ∈ (run step Rx.boot [shortMessage 0 44]).2, c.start = 8) ∧
    ∃ c ∈ (run step Rx.boot [shortMessage 0xFFFFF830 2044]).2,
      c.message.length < c.start.toNat + c.size.toNat ∧
        App.onPacket App.Mailbox.boot c.data c.size = none := by
  have hlow : ∃ c ∈ (run step Rx.boot [shortMessage 0 44]).2, c.start = 8 := by
    decide +kernel
  refine ⟨fun h => ?_, hlow, by decide +kernel⟩
  obtain ⟨c, hc, hstart⟩ := hlow
  have hsafe := (h _ c hc).after_header
  rw [hstart] at hsafe
  exact absurd hsafe (by decide)

/-! ## Delivery of well-formed messages -/

theorem packetsOf_cons (p : List UInt8) (ps : List (List UInt8))
    (h : ∀ q ∈ p :: ps, q.length ≤ rndisDataOutSz) :
    packetsOf (p :: ps) h =
      ⟨p, h p List.mem_cons_self⟩ :: packetsOf ps (fun q hq => h q (List.mem_cons_of_mem _ hq)) :=
  rfl

theorem packetsOf_append (ps qs : List (List UInt8))
    (h : ∀ q ∈ ps ++ qs, q.length ≤ rndisDataOutSz) :
    packetsOf (ps ++ qs) h =
      packetsOf ps (fun q hq => h q (List.mem_append_left _ hq)) ++
        packetsOf qs (fun q hq => h q (List.mem_append_right _ hq)) := by
  unfold packetsOf
  rw [List.pmap_append]

def endingOf (t : List UInt8) : Ending :=
  if rndisRxBufferSize < t.length then .overflow else .message t

theorem collect_last {t acc : List UInt8} {p : OutPacket} (ht : acc ++ p.bytes = t)
    (hends : t.length ≤ rndisRxBufferSize → Ends t p) : collect acc p = ([], [endingOf t]) := by
  have hlen : acc.length + p.bytes.length = t.length := by rw [← ht, List.length_append]
  unfold collect endingOf
  rw [hlen, ht]
  split
  · rfl
  · rename_i hfit
    rw [if_pos (hends (Nat.le_of_not_lt hfit))]

theorem collect_inside {t acc rest : List UInt8} {p : OutPacket}
    (ht : acc ++ (p.bytes ++ rest) = t) (hne : rest ≠ []) (hroom : t.length ≤ 1600)
    (hwhole : p.bytes.length = rndisDataOutSz) (hacc : acc.length % rndisDataOutSz = 0)
    (hbefore : ∀ e, e % rndisDataOutSz = 0 → 0 < e → e < t.length →
      (DataPacket.messageLength t).toNat ≠ e) :
    collect acc p = (acc ++ p.bytes, []) := by
  have hpos := List.length_pos_of_ne_nil hne
  have hlen : acc.length + (p.bytes.length + rest.length) = t.length := by
    rw [← ht, List.length_append, List.length_append]
  unfold rndisDataOutSz at *
  have hfit : ¬ rndisRxBufferSize < acc.length + p.bytes.length := by
    unfold rndisRxBufferSize ethMaxPacketSize ethHeaderSize rndisMtu DataPacket.size
    omega
  have hann : DataPacket.messageLength t = DataPacket.messageLength (acc ++ p.bytes) := by
    rw [← ht, ← List.append_assoc]
    exact Mem.word32At_append_left _ _ 4 (by rw [List.length_append]; omega)
  have hends : ¬ Ends (acc ++ p.bytes) p := by
    rintro (hshort | heq)
    · exact hshort hwhole
    · rw [← hann, List.length_append] at heq
      exact hbefore _ (by omega) (by omega) (by omega) heq.symm
  rw [collect, if_neg hfit, if_neg hends]

/-- The packets of the rest `r` of `t`, with `acc` collected before. 1600 bytes are the
first whole packets that do not fit the buffer. -/
theorem collect_rest (t : List UInt8) (hroom : t.length ≤ 1600)
    (hbefore : ∀ e, e % rndisDataOutSz = 0 → 0 < e → e < t.length →
      (DataPacket.messageLength t).toNat ≠ e)
    (hlast : rndisRxBufferSize < t.length ∨ t.length % rndisDataOutSz ≠ 0 ∨
      (DataPacket.messageLength t).toNat = t.length) (r : List UInt8) :
    ∀ (acc : List UInt8) (h : ∀ q ∈ Cut.cut rndisDataOutSz r, q.length ≤ rndisDataOutSz),
      acc ++ r = t → r ≠ [] → acc.length % rndisDataOutSz = 0 →
      run collect acc (packetsOf (Cut.cut rndisDataOutSz r) h) = ([], [endingOf t]) := by
  have h64 : rndisDataOutSz = 64 := rfl
  induction r using Cut.cut_induction rndisDataOutSz (by decide) with
  | nil => intro _ _ _ hne; exact absurd rfl hne
  | cons r hr ih =>
    intro acc h ht _ hacc
    have hlen : acc.length + r.length = t.length := by rw [← ht, List.length_append]
    simp only [Cut.cut_of_ne_nil rndisDataOutSz (by decide) r hr, packetsOf_cons, run_cons]
    rcases Nat.lt_or_ge rndisDataOutSz r.length with hmore | hone
    · have hne : r.drop rndisDataOutSz ≠ [] := by
        rw [ne_eq, List.drop_eq_nil_iff]
        exact Nat.not_le.mpr hmore
      have hwhole : (r.take rndisDataOutSz).length = rndisDataOutSz :=
        List.length_take_of_le (Nat.le_of_lt hmore)
      rw [collect_inside (by rw [List.take_append_drop]; exact ht) hne hroom hwhole hacc hbefore]
      rw [ih _ _ (by rw [List.append_assoc, List.take_append_drop]; exact ht) hne
        (by rw [List.length_append, hwhole, Nat.add_mod_right]; exact hacc)]
      rfl
    · have htake : r.take rndisDataOutSz = r := List.take_of_length_le hone
      have hend : ∀ hq, collect acc ⟨r.take rndisDataOutSz, hq⟩ = ([], [endingOf t]) := by
        intro hq
        apply collect_last (by simp only [htake, ht])
        intro hfit
        -- Short, or the announced length is reached.
        rcases hlast with hover | hshort | hann
        · exact absurd hfit (Nat.not_le.mpr hover)
        · apply ends_of_short
          change (r.take rndisDataOutSz).length < rndisDataOutSz
          rw [htake]
          rw [h64] at hshort hacc hone ⊢
          omega
        · exact Or.inr hann.symm
      rw [hend]
      simp [List.drop_eq_nil_of_le hone, packetsOf]

/-- A padding packet is a message of its own that is too short to do anything. -/
theorem collect_padding (p : OutPacket) (h : p.bytes.length ≤ 1) :
    collect [] p = ([], [.message p.bytes]) ∧ calls (.message p.bytes) = [] ∧
      ∀ stat, tally stat (.message p.bytes) = stat := by
  have hn : ¬ Named p.bytes := by
    rintro ⟨hsize, -⟩
    unfold DataPacket.size at hsize
    omega
  refine ⟨?_, by simp [calls, hn], by simp [tally, hn]⟩
  unfold collect
  rw [if_neg (by simp [rndisRxBufferSize, DataPacket.size]; omega),
    if_pos (ends_of_short _ p (by unfold rndisDataOutSz; omega))]
  rfl

theorem collect_message (m : PacketMsg) (pad : Padding) :
    (run collect [] (m.packets pad)).1 = [] ∧
      (run collect [] (m.packets pad)).2.flatMap calls = [callOf m.bytes] ∧
      ∀ stat, (run collect [] (m.packets pad)).2.foldl tally stat =
        { stat with rxok := stat.rxok + 1 } := by
  have hne : m.bytes ≠ [] := by
    intro hnil
    have := m.size_le
    rw [hnil] at this
    exact absurd this (by decide)
  have hroom := m.le_size
  unfold rndisRxBufferSize ethMaxPacketSize ethHeaderSize rndisMtu DataPacket.size at hroom
  have hending : endingOf m.bytes = .message m.bytes := if_neg (Nat.not_lt.mpr m.le_size)
  have hrun := fun h => collect_rest m.bytes (by omega)
    (by rw [m.length_eq]; intro e _ _ hlt; omega) (Or.inr (Or.inr m.length_eq)) m.bytes [] h rfl
    hne rfl
  rw [hending] at hrun
  have hoff : (DataPacket.dataOffset m.bytes + DataPacket.offsetofDataOffset +
      DataPacket.dataLength m.bytes).toNat = m.bytes.length := by
    have hends := m.ends
    rw [UInt32.toNat_add, UInt32.toNat_add, show DataPacket.offsetofDataOffset.toNat = 8 from rfl]
    omega
  have hok : Named m.bytes ∧ Fits m.bytes := ⟨⟨m.size_le, m.type_eq, m.length_eq⟩, hoff⟩
  have hcalls : calls (.message m.bytes) = [callOf m.bytes] := by simp [calls, hok]
  have htally : ∀ stat, tally stat (.message m.bytes) = { stat with rxok := stat.rxok + 1 } := by
    simp [tally, hok]
  unfold PacketMsg.packets wire
  split
  · rw [packetsOf_append, run_append, hrun]
    cases pad with
    | nothing => simp [Padding.packets, packetsOf, hcalls, htally]
    | zeroLength =>
      obtain ⟨hcollect, hcalls', htally'⟩ := collect_padding ⟨[], by simp⟩ (by simp)
      simp [Padding.packets, packetsOf, hcollect, hcalls, htally, hcalls', htally']
    | byte b =>
      obtain ⟨hcollect, hcalls', htally'⟩ := collect_padding ⟨[b], by simp [rndisDataOutSz]⟩
        (by simp)
      simp [Padding.packets, packetsOf, hcollect, hcalls, htally, hcalls', htally']
  · simp [hrun, hcalls, htally]

def sent (msgs : List (PacketMsg × Padding)) : List OutPacket :=
  msgs.flatMap fun x => x.1.packets x.2

theorem collect_sent (msgs : List (PacketMsg × Padding)) :
    (run collect [] (sent msgs)).1 = [] ∧
      (run collect [] (sent msgs)).2.flatMap calls = msgs.map (fun x => callOf x.1.bytes) ∧
      ∀ stat, (run collect [] (sent msgs)).2.foldl tally stat =
        { stat with rxok := stat.rxok + UInt32.ofNat msgs.length } := by
  induction msgs with
  | nil => simp [sent]
  | cons x msgs ih =>
    obtain ⟨hacc, hcalls, htally⟩ := collect_message x.1 x.2
    obtain ⟨hacc', hcalls', htally'⟩ := ih
    have hsent : sent (x :: msgs) = x.1.packets x.2 ++ sent msgs := rfl
    rw [hsent, run_append, hacc]
    refine ⟨hacc', ?_, ?_⟩
    · rw [List.flatMap_append, hcalls, hcalls', List.map_cons, List.singleton_append]
    · intro stat
      rw [List.foldl_append, htally, htally', List.length_cons, UInt32.ofNat_add,
        UInt32.add_comm (UInt32.ofNat msgs.length), UInt32.add_assoc]
      rfl

theorem collect_short (acc : List UInt8) (p : OutPacket)
    (h : p.bytes.length < rndisDataOutSz) : (collect acc p).1 = [] := by
  unfold collect
  split
  · rfl
  rw [if_pos (ends_of_short _ p h)]

theorem callOf_data (m : PacketMsg) :
    (callOf m.bytes).data = m.data ∧ (callOf m.bytes).size.toNat = m.data.length := by
  have hends := m.ends
  have hroom := m.le_size
  unfold rndisRxBufferSize ethMaxPacketSize ethHeaderSize rndisMtu DataPacket.size at hroom
  constructor
  · rw [RxprocCall.data, start_toNat m.bytes (by omega)]
    rfl
  · unfold PacketMsg.data
    rw [Mem.slice_length _ _ _ (by omega)]
    rfl

/-- After any packets of which the last is short, a list of well-formed messages is
delivered message by message. -/
theorem messages_delivered (history : List OutPacket) (p : OutPacket)
    (hshort : p.bytes.length < rndisDataOutSz) (msgs : List (PacketMsg × Padding)) :
    let s := (run step Rx.boot (history ++ [p])).1
    let r := run step s (sent msgs)
    r.2.map (fun c => (c.size.toNat, c.data)) = msgs.map (fun x => (x.1.data.length, x.1.data)) ∧
      r.1.usbEthStat.rxok = s.usbEthStat.rxok + UInt32.ofNat msgs.length ∧
      r.1.usbEthStat.rxbad = s.usbEthStat.rxbad ∧ r.1.rndisReceived = 0 := by
  intro s r
  obtain ⟨hholds, -, hproc, -⟩ := run_spec Rx.boot [] holds_boot (history ++ [p])
  have hboundary : (run collect [] (history ++ [p])).1 = [] := by
    rw [run_snoc]
    exact collect_short _ p hshort
  rw [hboundary] at hholds
  obtain ⟨hacc, hcalls, htally⟩ := collect_sent msgs
  obtain ⟨hholds', hstat, -, hout⟩ := run_spec s [] hholds (sent msgs)
  rw [hacc] at hholds'
  rw [htally] at hstat
  rw [hproc, hcalls] at hout
  refine ⟨?_, by rw [hstat], by rw [hstat], hholds'.boundary⟩
  rw [show r.2 = msgs.map (fun x => callOf x.1.bytes) from hout, List.map_map]
  apply List.map_congr_left
  intro x _
  rw [Function.comp_apply, (callOf_data x.1).1, (callOf_data x.1).2]

def oneByte : PacketMsg where
  bytes := Mem.bytes32 1 ++ Mem.bytes32 45 ++ Mem.bytes32 36 ++ Mem.bytes32 1 ++
    List.replicate 29 7
  type_eq := by decide
  length_eq := by decide
  size_le := by decide
  le_size := by decide
  header_le := by decide
  ends := by decide
  data_le := by decide

theorem messages_delivered_oneByte :
    let s := (run step Rx.boot ([] ++ [shortMessage 0 44])).1
    let r := run step s (sent [(oneByte, .nothing)])
    r.2.map (fun c => (c.size.toNat, c.data)) = [(1, [7])] ∧ r.1.rndisReceived = 0 := by
  have h := messages_delivered [] (shortMessage 0 44) (by decide) [(oneByte, .nothing)]
  exact ⟨h.1, h.2.2.2⟩

end Lrndis.Receive
