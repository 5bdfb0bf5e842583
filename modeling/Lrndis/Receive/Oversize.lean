import Lrndis.Receive.Proofs

/-!
# Messages that outgrow the buffer

The driver drops the first 1600 bytes of such a message, and then it is at a message
boundary: it reads the bytes from there on as messages of their own.
-/

namespace Lrndis.Receive

open Run

/-! ## A stream of bytes as messages -/

/-- Where the message ends that begins with the first byte of `r`: at a whole packet with
the length that it announces, or at the first packet that is short or does not fit. -/
def firstEnd (r : List UInt8) : Nat :=
  let l := (DataPacket.messageLength r).toNat
  if l % rndisDataOutSz = 0 ∧ 0 < l ∧ l ≤ 1536 ∧ l ≤ r.length then l else min 1600 r.length

theorem firstEnd_cases (r : List UInt8) :
    let l := (DataPacket.messageLength r).toNat
    (l % 64 = 0 ∧ 0 < l ∧ l ≤ 1536 ∧ l ≤ r.length ∧ firstEnd r = l) ∨
      (¬ (l % 64 = 0 ∧ 0 < l ∧ l ≤ 1536 ∧ l ≤ r.length) ∧ firstEnd r = min 1600 r.length) := by
  intro l
  by_cases hl : l % 64 = 0 ∧ 0 < l ∧ l ≤ 1536 ∧ l ≤ r.length
  · exact Or.inl ⟨hl.1, hl.2.1, hl.2.2.1, hl.2.2.2, if_pos hl⟩
  · exact Or.inr ⟨hl, if_neg hl⟩

theorem firstEnd_pos (r : List UInt8) (h : r ≠ []) : 0 < firstEnd r := by
  have hpos := List.length_pos_of_ne_nil h
  have hcases := firstEnd_cases r
  omega

theorem firstEnd_le (r : List UInt8) : firstEnd r ≤ 1600 ∧ firstEnd r ≤ r.length := by
  have hcases := firstEnd_cases r
  omega

def endingsIn (r : List UInt8) : List Ending :=
  if _h : r = [] then []
  else endingOf (r.take (firstEnd r)) :: endingsIn (r.drop (firstEnd r))
termination_by r.length
decreasing_by
  have hpos := firstEnd_pos r _h
  have hlen := List.length_pos_of_ne_nil _h
  rw [List.length_drop]
  omega

theorem length_take_firstEnd (r : List UInt8) : (r.take (firstEnd r)).length = firstEnd r :=
  List.length_take_of_le (firstEnd_le r).2

theorem messageLength_take (r : List UInt8) (n : Nat) (h : 8 ≤ n) :
    DataPacket.messageLength (r.take n) = DataPacket.messageLength r :=
  Mem.word32At_take r n 4 h

theorem firstEnd_first (r : List UInt8) (e : Nat) (hwhole : e % rndisDataOutSz = 0)
    (hpos : 0 < e) (hlt : e < firstEnd r) :
    (DataPacket.messageLength (r.take (firstEnd r))).toNat ≠ e := by
  obtain ⟨h1600, hlen⟩ := firstEnd_le r
  unfold rndisDataOutSz at hwhole
  rw [messageLength_take r _ (by omega)]
  intro hann
  have hend : firstEnd r = e := by
    unfold firstEnd rndisDataOutSz
    rw [hann, if_pos (by omega)]
  omega

theorem firstEnd_last (r : List UInt8) (hshort : r.length % rndisDataOutSz ≠ 0) :
    rndisRxBufferSize < firstEnd r ∨ firstEnd r % rndisDataOutSz ≠ 0 ∨
      (DataPacket.messageLength (r.take (firstEnd r))).toNat = firstEnd r := by
  unfold rndisDataOutSz at hshort ⊢
  unfold rndisRxBufferSize ethMaxPacketSize ethHeaderSize rndisMtu DataPacket.size
  rcases firstEnd_cases r with ⟨hwhole, hpos, -, -, hend⟩ | ⟨-, hend⟩
  · right; right
    rw [messageLength_take r _ (by omega), hend]
  · omega

theorem firstEnd_whole (r : List UInt8) :
    firstEnd r % rndisDataOutSz = 0 ∨ firstEnd r = r.length := by
  have hcases := firstEnd_cases r
  unfold rndisDataOutSz
  omega

theorem cut_firstEnd (r : List UInt8) :
    Cut.cut rndisDataOutSz r =
      Cut.cut rndisDataOutSz (r.take (firstEnd r)) ++
        Cut.cut rndisDataOutSz (r.drop (firstEnd r)) := by
  rcases firstEnd_whole r with hwhole | hall
  · conv_lhs => rw [← List.take_append_drop (firstEnd r) r]
    apply Cut.cut_append _ (by decide)
    rw [length_take_firstEnd]
    exact Nat.dvd_of_mod_eq_zero hwhole
  · rw [hall, List.take_length, List.drop_length, Cut.cut_nil, List.append_nil]

theorem collect_stream (r : List UInt8) (hr : r = [] ∨ r.length % rndisDataOutSz ≠ 0)
    (h : ∀ q ∈ Cut.cut rndisDataOutSz r, q.length ≤ rndisDataOutSz) :
    run collect [] (packetsOf (Cut.cut rndisDataOutSz r) h) = ([], endingsIn r) := by
  fun_induction endingsIn r with
  | case1 => simp [packetsOf]
  | case2 r hne ih =>
    have hshort : r.length % rndisDataOutSz ≠ 0 := hr.resolve_left hne
    have hlen := length_take_firstEnd r
    have hfirst : ∀ h, run collect [] (packetsOf (Cut.cut rndisDataOutSz (r.take (firstEnd r))) h) =
        ([], [endingOf (r.take (firstEnd r))]) := by
      intro h
      apply collect_rest (r.take (firstEnd r)) _ _ _ _ [] h rfl _ rfl
      · rw [hlen]
        exact (firstEnd_le r).1
      · rw [hlen]
        exact firstEnd_first r
      · rw [hlen]
        exact firstEnd_last r hshort
      · intro hnil
        rw [hnil, List.length_nil] at hlen
        exact absurd hlen (Nat.ne_of_lt (firstEnd_pos r hne))
    -- The rest starts at a packet again, so the induction hypothesis is about it.
    have hrest : r.drop (firstEnd r) = [] ∨
        (r.drop (firstEnd r)).length % rndisDataOutSz ≠ 0 := by
      rcases firstEnd_whole r with hwhole | hall
      · right
        have hle := (firstEnd_le r).2
        unfold rndisDataOutSz at *
        rw [List.length_drop]
        omega
      · left
        rw [hall, List.drop_length]
    simp only [cut_firstEnd r, packetsOf_append, run_append, hfirst, ih hrest]
    rfl

theorem endingsIn_length (r : List UInt8) : 64 * (endingsIn r).length ≤ r.length + 63 := by
  fun_induction endingsIn r with
  | case1 => simp
  | case2 r hne ih =>
    have hpos := firstEnd_pos r hne
    have hle := (firstEnd_le r).2
    rw [List.length_drop] at ih
    rw [List.length_cons]
    rcases firstEnd_whole r with hwhole | hall
    · unfold rndisDataOutSz at hwhole
      omega
    · have hnil : endingsIn (r.drop (firstEnd r)) = [] := by
        rw [hall, List.drop_length, endingsIn, dif_pos rfl]
      rw [hnil, List.length_nil]
      omega

/-! ## Counting -/

def isGood : Ending → Bool
  | .overflow => false
  | .message m => Named m ∧ Fits m

def isBad : Ending → Bool
  | .overflow => true
  | .message m => Named m ∧ ¬ Fits m

theorem tally_eq (stat : UsbEthStat) (e : Ending) :
    tally stat e = { stat with
      rxok := stat.rxok + UInt32.ofNat (if isGood e then 1 else 0)
      rxbad := stat.rxbad + UInt32.ofNat (if isBad e then 1 else 0) } := by
  cases e with
  | overflow => simp [tally, isGood, isBad]
  | message m =>
    by_cases hn : Named m <;> by_cases hf : Fits m <;> simp [tally, isGood, isBad, hn, hf]

theorem foldl_tally (es : List Ending) (stat : UsbEthStat) :
    es.foldl tally stat = { stat with
      rxok := stat.rxok + UInt32.ofNat (es.countP isGood)
      rxbad := stat.rxbad + UInt32.ofNat (es.countP isBad) } := by
  induction es generalizing stat with
  | nil => simp
  | cons e es ih =>
    rw [List.foldl_cons, ih, tally_eq, List.countP_cons, List.countP_cons, UInt32.ofNat_add,
      UInt32.ofNat_add, UInt32.add_assoc, UInt32.add_assoc, UInt32.add_comm (UInt32.ofNat _),
      UInt32.add_comm (UInt32.ofNat (if isBad e then 1 else 0))]

theorem flatMap_calls_nil (es : List Ending) :
    es.flatMap calls = [] ↔ ∀ m, .message m ∈ es → ¬ (Named m ∧ Fits m) := by
  rw [List.flatMap_eq_nil_iff]
  constructor
  · intro h m hm hok
    have hcalls := h _ hm
    rw [calls, if_pos hok] at hcalls
    simp at hcalls
  · rintro h (_ | m) hm
    · rfl
    · rw [calls, if_neg (h m hm)]

theorem countP_isGood (es : List Ending) :
    es.countP isGood = 0 ↔ ∀ m, .message m ∈ es → ¬ (Named m ∧ Fits m) := by
  rw [List.countP_eq_zero]
  constructor
  · intro h m hm hok
    exact h _ hm (by simpa [isGood] using hok)
  · rintro h (_ | m) hm
    · simp [isGood]
    · simpa [isGood] using h m hm

/-! ## One oversized message -/

structure Oversized where
  bytes : List UInt8
  length_eq : (DataPacket.messageLength bytes).toNat = bytes.length
  long : rndisRxBufferSize < bytes.length

namespace Oversized

/-- What the host sends: a byte more where the message fills its last packet. -/
def packets (m : Oversized) (b : UInt8) : List OutPacket :=
  packetsOf (wire m.bytes (.byte b)) (wire_fits m.bytes (.byte b))

def padded (m : Oversized) (b : UInt8) : List UInt8 :=
  if m.bytes.length % rndisDataOutSz = 0 then m.bytes ++ [b] else m.bytes

def rest (m : Oversized) (b : UInt8) : List UInt8 := (m.padded b).drop 1600

theorem wire_eq (m : Oversized) (b : UInt8) :
    wire m.bytes (.byte b) = Cut.cut rndisDataOutSz (m.padded b) := by
  unfold wire padded
  split
  · rename_i hwhole
    rw [Cut.cut_append _ (by decide) _ _ (Nat.dvd_of_mod_eq_zero hwhole),
      Cut.cut_of_ne_nil _ (by decide) [b] (by simp)]
    simp [Padding.packets, rndisDataOutSz]
  · rfl

theorem padded_short (m : Oversized) (b : UInt8) :
    (m.padded b).length % rndisDataOutSz ≠ 0 := by
  unfold padded
  split
  · rw [List.length_append, List.length_singleton]
    unfold rndisDataOutSz at *
    omega
  · assumption

theorem padded_length (m : Oversized) (b : UInt8) :
    m.bytes.length ≤ (m.padded b).length ∧ (m.padded b).length ≤ m.bytes.length + 1 := by
  unfold padded
  split <;> simp

theorem firstEnd_padded (m : Oversized) (b : UInt8) :
    firstEnd (m.padded b) = min 1600 (m.padded b).length := by
  have hlong := m.long
  unfold rndisRxBufferSize ethMaxPacketSize ethHeaderSize rndisMtu DataPacket.size at hlong
  have hann : DataPacket.messageLength (m.padded b) = DataPacket.messageLength m.bytes := by
    unfold padded
    split
    · exact Mem.word32At_append_left _ _ 4 (by omega)
    · rfl
  have hcases := firstEnd_cases (m.padded b)
  rw [hann, m.length_eq] at hcases
  omega

theorem endings (m : Oversized) (b : UInt8) :
    run collect [] (m.packets b) = ([], .overflow :: endingsIn (m.rest b)) := by
  have hlong := m.long
  obtain ⟨hlen, -⟩ := m.padded_length b
  have hne : m.padded b ≠ [] := by
    intro hnil
    rw [hnil, List.length_nil] at hlen
    omega
  have hfirst : endingOf ((m.padded b).take (firstEnd (m.padded b))) = .overflow := by
    unfold endingOf
    rw [length_take_firstEnd, firstEnd_padded, if_pos]
    unfold rndisRxBufferSize ethMaxPacketSize ethHeaderSize rndisMtu DataPacket.size at *
    omega
  have hrest : (m.padded b).drop (firstEnd (m.padded b)) = m.rest b := by
    rw [firstEnd_padded, rest]
    rcases Nat.le_total 1600 (m.padded b).length with h | h
    · rw [Nat.min_eq_left h]
    · rw [Nat.min_eq_right h, List.drop_length, List.drop_eq_nil_of_le h]
  unfold packets
  simp only [wire_eq]
  rw [collect_stream _ (Or.inr (m.padded_short b)), endingsIn, dif_neg hne, hfirst, hrest]

/-- The message is dropped as a whole: only `rxbad` grows, and the next message comes
through. -/
structure Dropped (s : Rx) (m : Oversized) (b : UInt8) : Prop where
  no_call : (run step s (m.packets b)).2 = []
  rxok : (run step s (m.packets b)).1.usbEthStat.rxok = s.usbEthStat.rxok
  rxbad : ∃ k, 0 < k ∧ k < 2 ^ 32 ∧
    (run step s (m.packets b)).1.usbEthStat.rxbad = s.usbEthStat.rxbad + UInt32.ofNat k
  next : ∀ (next : PacketMsg) (pad : Padding),
    (run step (run step s (m.packets b)).1 (next.packets pad)).2.map
        (fun c => (c.size.toNat, c.data)) =
      if s.rndisRxproc then [(next.data.length, next.data)] else []

/-- No message behind the first 1600 bytes is one that `handle_packet` accepts. -/
def Quiet (m : Oversized) (b : UInt8) : Prop :=
  ∀ m', .message m' ∈ endingsIn (m.rest b) → ¬ (Named m' ∧ Fits m')

theorem endings_count (m : Oversized) (b : UInt8) : (endingsIn (m.rest b)).length < 2 ^ 31 := by
  have hbound := (DataPacket.messageLength m.bytes).toNat_lt
  rw [m.length_eq] at hbound
  have hlen := (m.padded_length b).2
  have hcount := endingsIn_length (m.rest b)
  rw [rest, List.length_drop] at hcount
  unfold rest
  omega

theorem quiet_iff_count (m : Oversized) (b : UInt8) :
    m.Quiet b ↔ (endingsIn (m.rest b)).countP isGood = 0 := (countP_isGood _).symm

theorem quiet_of_dropped (s : Rx) (h : s.rndisReceived = 0) (m : Oversized) (b : UInt8)
    (hd : Dropped s m b) : m.Quiet b := by
  obtain ⟨-, hstat, -, -⟩ := run_spec s [] (holds_empty s h) (m.packets b)
  have hrxok := hd.rxok
  rw [hstat, m.endings b, foldl_tally] at hrxok
  have hcount := m.endings_count b
  have hle := List.countP_le_length (p := isGood) (l := endingsIn (m.rest b))
  have hzero : UInt32.ofNat ((endingsIn (m.rest b)).countP isGood) = 0 := by
    simpa [isGood] using hrxok
  rw [quiet_iff_count]
  have hnat := congrArg UInt32.toNat hzero
  rw [UInt32.toNat_ofNat', UInt32.toNat_zero] at hnat
  omega

theorem dropped_of_quiet (s : Rx) (h : s.rndisReceived = 0) (m : Oversized) (b : UInt8)
    (hq : m.Quiet b) : Dropped s m b := by
  obtain ⟨hholds, hstat, hproc, hout⟩ := run_spec s [] (holds_empty s h) (m.packets b)
  rw [m.endings b] at hholds hstat hout
  rw [foldl_tally] at hstat
  refine ⟨?_, ?_, ?_, ?_⟩
  · rw [hout]
    split
    · rw [List.flatMap_cons, (flatMap_calls_nil _).mpr hq]
      rfl
    · rfl
  · rw [hstat]
    simp [isGood, (m.quiet_iff_count b).mp hq]
  · refine ⟨(Ending.overflow :: endingsIn (m.rest b)).countP isBad, ?_, ?_, by rw [hstat]⟩
    · simp [isBad]
    · have hcount := m.endings_count b
      have hle := List.countP_le_length (p := isBad) (l := .overflow :: endingsIn (m.rest b))
      rw [List.length_cons] at hle
      omega
  · intro next pad
    obtain ⟨-, -, -, hnext⟩ := run_spec _ [] hholds (next.packets pad)
    rw [hnext, hproc, (collect_message next pad).2.1]
    split
    · rw [List.map_singleton, (callOf_data next).1, (callOf_data next).2]
    · rfl

end Oversized

/-- An oversized message is dropped as a whole exactly if the driver accepts none of the
messages that it finds in the bytes behind the first 1600. -/
theorem oversized_dropped_iff (s : Rx) (h : s.rndisReceived = 0) (m : Oversized) (b : UInt8) :
    m.Dropped s b ↔ m.Quiet b :=
  ⟨m.quiet_of_dropped s h b, m.dropped_of_quiet s h b⟩

def behind (tail : List UInt8) (h : tail.length < 2 ^ 31) : Oversized where
  bytes := Mem.bytes32 1 ++ (Mem.bytes32 (UInt32.ofNat (1600 + tail.length)) ++
    (List.replicate 1592 0 ++ tail))
  length_eq := by
    have hann := (Mem.word32At_skip 1 (Mem.bytes32 (UInt32.ofNat (1600 + tail.length)) ++
      (List.replicate 1592 0 ++ tail)) 0).trans (Mem.word32At_bytes32 _ _)
    unfold DataPacket.messageLength
    rw [hann, UInt32.toNat_ofNat']
    simp only [List.length_append, Mem.bytes32_length, List.length_replicate]
    omega
  long := by
    simp only [List.length_append, Mem.bytes32_length, List.length_replicate]
    unfold rndisRxBufferSize ethMaxPacketSize ethHeaderSize rndisMtu DataPacket.size
    omega

theorem oversized_dropped_iff_zeros : (behind [] (by decide)).Dropped Rx.boot 0 :=
  (oversized_dropped_iff Rx.boot rfl (behind [] (by decide)) 0).mpr
    ((Oversized.quiet_iff_count _ _).mpr (by decide +kernel))

/-- A message of 64 bytes inside a long one, where the driver looks for the next message. -/
def inner : List UInt8 :=
  Mem.bytes32 1 ++ Mem.bytes32 64 ++ Mem.bytes32 36 ++ Mem.bytes32 20 ++ List.replicate 48 7

theorem inner_delivered :
    (¬ ∀ m b, Oversized.Dropped Rx.boot m b) ∧
    (run step Rx.boot ((behind inner (by decide)).packets 0)).2.map
      (fun c => (c.size.toNat, c.data)) = [(20, List.replicate 20 7)] ∧
    (run step Rx.boot ((behind inner (by decide)).packets 0)).1.usbEthStat.rxok = 1 := by
  obtain ⟨-, hstat, -, hout⟩ := run_spec Rx.boot [] holds_boot
    ((behind inner (by decide)).packets 0)
  rw [Oversized.endings] at hstat hout
  have hrxok : (run step Rx.boot ((behind inner (by decide)).packets 0)).1.usbEthStat.rxok = 1 := by
    rw [hstat]
    decide +kernel
  refine ⟨fun h => ?_, ?_, hrxok⟩
  · have hsame := (h (behind inner (by decide)) 0).rxok
    rw [hrxok] at hsame
    exact absurd hsame (by decide)
  · rw [hout]
    decide +kernel

end Lrndis.Receive
