import Lrndis.Transmit.Spec

/-! # The driver works off the queue of transfers -/

namespace Lrndis.Transmit

open Mem

/-! ## The header packet -/

theorem needsPadding_iff (size : Nat) :
    (UInt32.ofNat DataPacket.size + UInt32.ofNat size) &&& (UInt32.ofNat rndisDataInSz - 1) = 0 ↔
      NeedsPadding size := by
  have hmask : (UInt32.ofNat rndisDataInSz - 1).toNat = 2 ^ 6 - 1 := by decide
  rw [← UInt32.toNat_inj, UInt32.toNat_and, hmask, Nat.and_two_pow_sub_one_eq_mod,
    ← UInt32.ofNat_add, UInt32.toNat_ofNat']
  unfold NeedsPadding rndisDataInSz DataPacket.size
  change (44 + size) % 2 ^ 32 % 2 ^ 6 = 0 ↔ _
  omega

theorem fillFirst_header (first : Buffer rndisDataInSz) (size : Nat) (data : List UInt8)
    (h : DataPacket.size + data.length ≤ rndisDataInSz) :
    (fillFirst first size (decide (NeedsPadding size)) data).bytes.take
      (DataPacket.size + data.length) = header size ++ data := by
  have h44 : DataPacket.size ≤ rndisDataInSz := by decide
  have hzero : (first.write 0 (List.replicate DataPacket.size 0)).bytes.take DataPacket.size =
      List.replicate DataPacket.size 0 := by
    have := first.take_write 0 (List.replicate DataPacket.size 0) (by simp [h44])
    simpa using this
  have htype := Buffer.take_write_inside _ 0 DataPacket.size (bytes32 remoteNdisPacketMsg) _
    hzero h44 (by decide)
  have hlength := Buffer.take_write_inside _ 4 DataPacket.size
    (bytes32 (UInt32.ofNat DataPacket.size + UInt32.ofNat size)) _ htype h44 (by simp; decide)
  have hoffset := Buffer.take_write_inside _ 8 DataPacket.size
    (bytes32 (UInt32.ofNat DataPacket.size - DataPacket.offsetofDataOffset)) _ hlength h44
    (by decide)
  have hdata := Buffer.take_write_inside _ 12 DataPacket.size (bytes32 (UInt32.ofNat size)) _
    hoffset h44 (by simp; decide)
  unfold fillFirst
  rw [Buffer.take_write _ _ _ h]
  congr 1
  by_cases hpad : NeedsPadding size
  · have hpadded := Buffer.take_write_inside _ 4 DataPacket.size
      (bytes32 (UInt32.ofNat DataPacket.size + UInt32.ofNat size + 1)) _ hdata h44
      (by simp; decide)
    have htotal : UInt32.ofNat (total size) =
        UInt32.ofNat DataPacket.size + UInt32.ofNat size + 1 := by
      rw [total, show padding size = [0] from if_pos hpad, UInt32.ofNat_add, UInt32.ofNat_add]
      rfl
    rw [header, htotal, decide_eq_true hpad]
    exact hpadded
  · have htotal : UInt32.ofNat (total size) =
        UInt32.ofNat DataPacket.size + UInt32.ofNat size := by
      rw [total, (padding_eq_nil _).mpr hpad, UInt32.ofNat_add, UInt32.ofNat_add]
      simp
    rw [header, htotal, decide_eq_false hpad]
    exact hdata

/-! ## One transfer after another -/

theorem bytes_length (mem : Nat → UInt8) (first : Buffer rndisDataInSz) (t : EpTx) :
    (t.bytes mem first).length = t.len := by
  simp [EpTx.bytes]

theorem place_first_bytes (mem : Nat → UInt8) (first : Buffer rndisDataInSz) (len : Nat)
    (h : len ≤ rndisDataInSz) :
    EpTx.bytes mem first { place := .first, len := len } = first.bytes.take len := by
  apply List.ext_getElem
  · simp [EpTx.bytes, h]
  · intro i h1 h2
    have hi : i < first.bytes.length := by
      rw [List.length_take] at h2
      omega
    simp [EpTx.bytes, Place.byte, Buffer.byte, byteAt, List.getElem?_eq_getElem hi]

theorem place_caller_bytes (mem : Nat → UInt8) (first : Buffer rndisDataInSz) (a len : Nat) :
    EpTx.bytes mem first { place := .caller a, len := len } = load mem a len := rfl

theorem place_zero_bytes (mem : Nat → UInt8) (first : Buffer rndisDataInSz) :
    EpTx.bytes mem first { place := .zero, len := 1 } = [0] := rfl

/-- The transfers that the driver still owes the controller. -/
def left (mem : Nat → UInt8) (s : Tx) : List (List UInt8) :=
  match s.state with
  | .sendingHdr => transfer (load mem s.ptr s.size) ++ if s.needPadding then [[0]] else []
  | .sendingData => if s.needPadding then [[0]] else []
  | _ => []

theorem left_length_eq (mem mem' : Nat → UInt8) (s : Tx) :
    (left mem s).flatten.length = (left mem' s).flatten.length := by
  unfold left
  split
  · simp only [List.flatten_append, transfer_flatten, List.length_append, load_length]
  · rfl
  · rfl

theorem left_length_pos (mem : Nat → UInt8) (s : Tx) : ∀ b ∈ left mem s, 0 < b.length := by
  have hpad : ∀ b ∈ (if s.needPadding then [[(0 : UInt8)]] else []), 0 < b.length := by
    split <;> simp
  intro b hb
  unfold left at hb
  split at hb
  · rcases List.mem_append.mp hb with hb | hb
    · unfold transfer at hb
      split at hb
      · simp at hb
      · rename_i hne
        rw [List.mem_singleton.mp hb]
        exact List.length_pos_of_ne_nil hne
    · exact hpad b hb
  · exact hpad b hb
  · simp at hb

/-- The driver is between two transfers of a frame, with one of them outstanding. -/
def Busy (s : Tx) : Prop :=
  s.state = .sendingHdr ∨ s.state = .sendingData ∨ s.state = .sendingPadding

theorem busy_not_ready {s : Tx} (h : Busy s) : s.state ≠ .ready := by
  rcases h with h | h | h <;> simp [h]

/-- A frame starts with its first transfer, and the driver owes the later ones. Its
pointer stays inside the caller's buffer. -/
theorem start_spec (mem : Nat → UInt8) (s : Tx) (data : Nat) (size : Int) (hpos : 0 < size) :
    ∃ t, (start mem s data size).2 = some t ∧
      t.bytes mem (start mem s data size).1.first =
        firstTransfer (load mem data size.toNat) ∧
      left mem (start mem s data size).1 = later (load mem data size.toNat) ∧
      (start mem s data size).1.state = .sendingHdr ∧
      data ≤ (start mem s data size).1.ptr ∧
      (start mem s data size).1.ptr + (start mem s data size).1.size = data + size.toNat ∧
      t.place = .first := by
  obtain ⟨k, rfl⟩ := Int.eq_ofNat_of_zero_le (Int.le_of_lt hpos)
  have hmin : min firstRoom k ≤ k := Nat.min_le_right _ _
  have hroom : DataPacket.size + min firstRoom k ≤ rndisDataInSz := by
    have := Nat.min_le_left firstRoom k
    unfold firstRoom rndisDataInSz DataPacket.size at *
    omega
  unfold start usbdRndisDataIn
  rw [if_pos rfl]
  simp only [Int.toNat_natCast, needsPadding_iff k]
  change ∃ t, some _ = some t ∧ _
  refine ⟨_, rfl, ?_, ?_, trivial, Nat.le_add_right _ _, ?_, rfl⟩
  · have hfill := fillFirst_header s.first k (load mem data (min firstRoom k))
      (by simpa using hroom)
    rw [load_length] at hfill
    rw [firstTransfer, take_load, load_length, ← hfill]
    exact place_first_bytes _ _ _ hroom
  · rw [later, drop_load, load_length]
    unfold left transfer padding
    simp only [decide_eq_true_eq]
    congr 1
    split <;> simp
  · change data + min firstRoom k + (k - min firstRoom k) = data + k
    omega

theorem complete_spec (mem : Nat → UInt8) (s : Tx) (epnum : UInt8) (hbusy : Busy s)
    (hep : epnum &&& 0x0F = rndisDataInEp &&& 0x0F) :
    match left mem s with
    | [] => usbdRndisDataIn mem s epnum = ({ s with state := .ready }, none)
    | b :: rest => ∃ t state, usbdRndisDataIn mem s epnum = ({ s with state := state }, some t) ∧
        t.bytes mem s.first = b ∧ left mem { s with state := state } = rest ∧
        Busy { s with state := state } := by
  unfold usbdRndisDataIn
  rw [if_pos hep]
  rcases hbusy with hstate | hstate | hstate
  · simp only [hstate, left]
    by_cases hsize : s.size > 0
    · have hne : load mem s.ptr s.size ≠ [] := by
        intro hnil
        have := congrArg List.length hnil
        rw [load_length, List.length_nil] at this
        omega
      rw [if_pos hsize, transfer, if_neg hne]
      exact ⟨_, _, rfl, place_caller_bytes _ _ _ _, rfl, Or.inr (Or.inl rfl)⟩
    · have hzero : s.size = 0 := by omega
      rw [if_neg hsize, hzero, load_zero, transfer, if_pos rfl, List.nil_append]
      by_cases hpad : s.needPadding = true
      · rw [if_pos hpad, if_pos hpad]
        exact ⟨_, _, rfl, place_zero_bytes _ _, rfl, Or.inr (Or.inr rfl)⟩
      · rw [if_neg hpad, if_neg hpad]
  · simp only [hstate, left]
    by_cases hpad : s.needPadding = true
    · rw [if_pos hpad, if_pos hpad]
      exact ⟨_, _, rfl, place_zero_bytes _ _, rfl, Or.inr (Or.inr rfl)⟩
    · rw [if_neg hpad, if_neg hpad]
  · simp only [hstate, left]

theorem other_endpoint (mem : Nat → UInt8) (s : Tx) (epnum : UInt8)
    (hep : epnum &&& 0x0F ≠ rndisDataInEp &&& 0x0F) :
    usbdRndisDataIn mem s epnum = (s, none) := by
  unfold usbdRndisDataIn
  rw [if_neg hep]

theorem rndisCanSend_iff (s : Tx) : rndisCanSend s = true ↔ s.state = .ready := by
  simp [rndisCanSend]

theorem accepts_iff (s : Tx) (size : Int) :
    accepts s size = true ↔ s.state = .ready ∧ 1 ≤ size ∧ size ≤ ethMaxPacketSize := by
  simp only [accepts, decide_eq_true_eq, not_or, not_not]
  constructor
  · rintro ⟨hpos, hmax, hready⟩
    exact ⟨hready, by omega, by omega⟩
  · rintro ⟨hready, hpos, hmax⟩
    exact ⟨by omega, by omega, hready⟩

end Lrndis.Transmit
