import Lrndis.Lib.Cut
import Lrndis.Lib.Run

/-!
# IN transfers of the device core

How `DCD_EP_Tx` and the interrupt for an empty FIFO bring a transfer to the host, on the
endpoints other than 0: `usb_dcd.c`, `usb_dcd_int.c` and `usb_core.c`, without DMA.
-/

namespace Lrndis.Usb

open Mem

/-! ## Code -/

/-- `USB_OTG_EP`, as far as an IN transfer looks at it. -/
structure Ep where
  maxpacket : UInt32
  xferBuff : Nat
  xferLen : UInt32
  xferCount : UInt32

/-- `DIEPTSIZ`. Its fields have 19 and 10 bits. -/
structure DepXfrSiz where
  xfersize : UInt32
  pktcnt : UInt32

def dcdEpOpen (ep : Ep) (epMps : UInt16) : Ep := { ep with maxpacket := epMps.toUInt32 }

def usbOtgEPStartXfer (ep : Ep) : DepXfrSiz :=
  if ep.xferLen = 0 then { xfersize := 0, pktcnt := 1 }
  else
    { xfersize := ep.xferLen % 524288
      pktcnt := (ep.xferLen - 1 + ep.maxpacket) / ep.maxpacket % 1024 }

def dcdEpTx (ep : Ep) (pbuf : Nat) (bufLen : UInt32) : Ep × DepXfrSiz :=
  let ep := { ep with xferBuff := pbuf, xferCount := 0, xferLen := bufLen }
  (ep, usbOtgEPStartXfer ep)

/-- The bytes of the words that are written. -/
def usbOtgWritePacket (mem : Nat → UInt8) (src : Nat) (len : UInt16) : List UInt8 :=
  load mem src (4 * ((len.toNat + 3) / 4))

/-- A packet of `len` bytes in the FIFO, and how many words were free when `DTXFSTS` was read
last. -/
structure Write where
  stored : List UInt8
  len : UInt16
  avail : UInt16

def len32b (len : UInt32) : UInt32 := (len + 3) / 4

def Ep.nextLen (ep : Ep) : UInt32 :=
  if ep.xferLen - ep.xferCount > ep.maxpacket then ep.maxpacket else ep.xferLen - ep.xferCount

def Ep.advance (ep : Ep) (len : UInt32) : Ep :=
  { ep with xferBuff := ep.xferBuff + len.toNat, xferCount := ep.xferCount + len }

/-- The loop reads `DTXFSTS` before each round. The readings are given in their order, and
after those there is no room. -/
def writeLoop (mem : Nat → UInt8) (ep : Ep) (words : UInt32) : List UInt16 → Ep × List Write
  | [] => (ep, [])
  | avail :: readings =>
    if avail.toUInt32 > words ∧ ep.xferCount < ep.xferLen ∧ ep.xferLen ≠ 0 then
      let len := ep.nextLen
      let r := writeLoop mem (ep.advance len) (len32b len) readings
      (r.1,
        { stored := usbOtgWritePacket mem ep.xferBuff len.toUInt16
          len := len.toUInt16
          avail := avail } :: r.2)
    else (ep, [])

def dcdWriteEmptyTxFifo (mem : Nat → UInt8) (ep : Ep) (readings : List UInt16) : Ep × List Write :=
  writeLoop mem ep (len32b ep.nextLen) readings

abbrev Interrupt := (Nat → UInt8) × List UInt16

def step (ep : Ep) (i : Interrupt) : Ep × List Write := dcdWriteEmptyTxFifo i.1 ep i.2

/-! ## Transfers -/

section Transfers

variable {mps a : Nat} {data : List UInt8} {ep : Ep} {mem : Nat → UInt8}

structure Transfers (mps a : Nat) (data : List UInt8) (ep : Ep) : Prop where
  maxpacket : ep.maxpacket.toNat = mps
  mps_lt : mps < 65536
  len : ep.xferLen.toNat = data.length
  buff : ep.xferBuff = a + ep.xferCount.toNat
  count_le : ep.xferCount.toNat ≤ data.length

def Write.packet (w : Write) : List UInt8 := w.stored.take w.len.toNat

/-- There is more room in the FIFO than the words take, and they are the whole packet. -/
def Write.Fits (w : Write) : Prop :=
  w.stored.length < 4 * w.avail.toNat ∧ w.len.toNat ≤ w.stored.length

def rest (mps : Nat) (data : List UInt8) (ep : Ep) : List (List UInt8) :=
  Cut.cut mps (data.drop ep.xferCount.toNat)

theorem toNat_len32b {len : UInt32} (h : len.toNat < 65536) :
    (len32b len).toNat = (len.toNat + 3) / 4 := by
  unfold len32b
  rw [UInt32.toNat_div, UInt32.toNat_add, show (3 : UInt32).toNat = 3 from rfl,
    show (4 : UInt32).toNat = 4 from rfl]
  omega

theorem toNat_nextLen (h : Transfers mps a data ep) :
    ep.nextLen.toNat = min mps (data.length - ep.xferCount.toNat) := by
  have hcount := h.count_le
  have hle : ep.xferCount ≤ ep.xferLen := by
    rw [UInt32.le_iff_toNat_le, h.len]
    exact hcount
  have hleft : (ep.xferLen - ep.xferCount).toNat = data.length - ep.xferCount.toNat := by
    rw [UInt32.toNat_sub_of_le _ _ hle, h.len]
  unfold Ep.nextLen
  split
  · rename_i hlong
    rw [gt_iff_lt, UInt32.lt_iff_toNat_lt, hleft, h.maxpacket] at hlong
    rw [h.maxpacket, Nat.min_eq_left (Nat.le_of_lt hlong)]
  · rename_i hshort
    rw [gt_iff_lt, UInt32.lt_iff_toNat_lt, hleft, h.maxpacket, Nat.not_lt] at hshort
    rw [hleft, Nat.min_eq_right hshort]

theorem toNat_count_advance (h : Transfers mps a data ep) :
    (ep.advance ep.nextLen).xferCount.toNat = ep.xferCount.toNat + ep.nextLen.toNat := by
  have hnext := toNat_nextLen h
  have hcount := h.count_le
  have hlen := h.len
  have hlt := ep.xferLen.toNat_lt
  simp only [Ep.advance]
  rw [UInt32.toNat_add]
  omega

theorem nextLen_lt (h : Transfers mps a data ep) : ep.nextLen.toNat < 65536 := by
  rw [toNat_nextLen h]
  exact Nat.lt_of_le_of_lt (Nat.min_le_left _ _) h.mps_lt

theorem transfers_start {ep : Ep} {epMps : UInt16} {len : UInt32} (hlen : len.toNat = data.length) :
    Transfers epMps.toNat a data (dcdEpTx (dcdEpOpen ep epMps) a len).1 where
  maxpacket := rfl
  mps_lt := epMps.toNat_lt
  len := hlen
  buff := rfl
  count_le := Nat.zero_le _

theorem transfers_advance (h : Transfers mps a data ep) :
    Transfers mps a data (ep.advance ep.nextLen) where
  maxpacket := h.maxpacket
  mps_lt := h.mps_lt
  len := h.len
  buff := by
    rw [toNat_count_advance h, ← Nat.add_assoc, ← h.buff]
    rfl
  count_le := by
    have hnext := toNat_nextLen h
    have hcount := h.count_le
    rw [toNat_count_advance h]
    omega

theorem rest_advance (hmps : 0 < mps) (h : Transfers mps a data ep)
    (hmem : load mem a data.length = data) (hmore : ep.xferCount.toNat < data.length) :
    rest mps data ep =
      load mem ep.xferBuff ep.nextLen.toNat :: rest mps data (ep.advance ep.nextLen) := by
  have hnext := toNat_nextLen h
  have hne : data.drop ep.xferCount.toNat ≠ [] := by
    rw [Ne, List.drop_eq_nil_iff]
    omega
  have hdrop : data.drop ep.xferCount.toNat =
      load mem ep.xferBuff (data.length - ep.xferCount.toNat) := by
    conv_lhs => rw [← hmem, drop_load]
    rw [h.buff, Nat.min_eq_left h.count_le]
  have hhead : (data.drop ep.xferCount.toNat).take mps =
      load mem ep.xferBuff ep.nextLen.toNat := by
    rw [hdrop, take_load, hnext]
  have htail : (data.drop ep.xferCount.toNat).drop mps =
      data.drop (ep.advance ep.nextLen).xferCount.toNat := by
    rw [List.drop_drop, toNat_count_advance h, hnext]
    rcases Nat.le_total mps (data.length - ep.xferCount.toNat) with hle | hle
    · rw [Nat.min_eq_left hle]
    · rw [Nat.min_eq_right hle, List.drop_of_length_le (by omega), List.drop_of_length_le (by omega)]
  rw [rest, Cut.cut_of_ne_nil mps hmps _ hne, hhead, htail]
  rfl

theorem toNat_toUInt16_of_lt {len : UInt32} (hlen : len.toNat < 65536) :
    len.toUInt16.toNat = len.toNat := by
  rw [UInt32.toNat_toUInt16]
  exact Nat.mod_eq_of_lt hlen

theorem packet_write (src : Nat) (avail : UInt16) {len : UInt32} (hlen : len.toNat < 65536) :
    (Write.mk (usbOtgWritePacket mem src len.toUInt16) len.toUInt16 avail).packet =
      load mem src len.toNat := by
  rw [Write.packet, usbOtgWritePacket, take_load, toNat_toUInt16_of_lt hlen,
    Nat.min_eq_left (by omega)]

theorem fits_write (src : Nat) {avail : UInt16} {len : UInt32} (hlen : len.toNat < 65536)
    (havail : len32b len < avail.toUInt32) :
    (Write.mk (usbOtgWritePacket mem src len.toUInt16) len.toUInt16 avail).Fits := by
  rw [UInt32.lt_iff_toNat_lt, toNat_len32b hlen, UInt16.toNat_toUInt32] at havail
  simp only [Write.Fits, usbOtgWritePacket, load_length, toNat_toUInt16_of_lt hlen]
  omega

/-- One interrupt writes some of the packets that are to come, each where there is room for it. -/
theorem writeLoop_spec (hmps : 0 < mps) (hmem : load mem a data.length = data) {words : UInt32}
    (readings : List UInt16) (h : Transfers mps a data ep) (hwords : len32b ep.nextLen ≤ words) :
    Transfers mps a data (writeLoop mem ep words readings).1 ∧
      rest mps data ep = (writeLoop mem ep words readings).2.map Write.packet ++
        rest mps data (writeLoop mem ep words readings).1 ∧
      ∀ w ∈ (writeLoop mem ep words readings).2, w.Fits := by
  induction readings generalizing ep words with
  | nil => exact ⟨h, rfl, by simp [writeLoop]⟩
  | cons avail readings ih =>
    unfold writeLoop
    split
    · rename_i hgo
      obtain ⟨havail, hmore, -⟩ := hgo
      rw [UInt32.lt_iff_toNat_lt, h.len] at hmore
      have hnext := transfers_advance h
      have hsmaller : len32b (ep.advance ep.nextLen).nextLen ≤ len32b ep.nextLen := by
        rw [UInt32.le_iff_toNat_le, toNat_len32b (nextLen_lt hnext), toNat_len32b (nextLen_lt h),
          toNat_nextLen hnext, toNat_count_advance h, toNat_nextLen h]
        omega
      obtain ⟨hlater, hrest, hfits⟩ := ih hnext hsmaller
      refine ⟨hlater, ?_, ?_⟩
      · rw [rest_advance hmps h hmem hmore, hrest, List.map_cons, packet_write _ _ (nextLen_lt h)]
        rfl
      · intro w hw
        rcases List.mem_cons.mp hw with rfl | hw
        · exact fits_write _ (nextLen_lt h) (UInt32.lt_of_le_of_lt hwords havail)
        · exact hfits w hw
    · exact ⟨h, rfl, by simp⟩

theorem step_spec (hmps : 0 < mps) (h : Transfers mps a data ep) {i : Interrupt}
    (hmem : load i.1 a data.length = data) :
    Transfers mps a data (step ep i).1 ∧
      rest mps data ep = (step ep i).2.map Write.packet ++ rest mps data (step ep i).1 ∧
      ∀ w ∈ (step ep i).2, w.Fits :=
  writeLoop_spec hmps hmem i.2 h (UInt32.le_refl _)

def Room (mps : Nat) (i : Interrupt) : Prop := (mps + 3) / 4 < (i.2.headD 0).toNat

instance (mps : Nat) (i : Interrupt) : Decidable (Room mps i) := by
  unfold Room; infer_instance

theorem step_writes (h : Transfers mps a data ep) {i : Interrupt} (hroom : Room mps i)
    (hmore : ep.xferCount.toNat < data.length) : 0 < (step ep i).2.length := by
  obtain ⟨mem, readings⟩ := i
  cases readings with
  | nil => exact absurd hroom (Nat.not_lt_zero _)
  | cons avail readings =>
    have havail : (mps + 3) / 4 < avail.toNat := hroom
    have hnext := toNat_nextLen h
    have hgo : avail.toUInt32 > len32b ep.nextLen ∧ ep.xferCount < ep.xferLen ∧ ep.xferLen ≠ 0 := by
      refine ⟨?_, ?_, ?_⟩
      · rw [gt_iff_lt, UInt32.lt_iff_toNat_lt, toNat_len32b (nextLen_lt h), UInt16.toNat_toUInt32]
        omega
      · rw [UInt32.lt_iff_toNat_lt, h.len]
        exact hmore
      · intro hzero
        have hlen := h.len
        rw [hzero, show (0 : UInt32).toNat = 0 from rfl] at hlen
        omega
    simp only [step, dcdWriteEmptyTxFifo, writeLoop, if_pos hgo]
    exact Nat.succ_pos _

theorem step_progress (hmps : 0 < mps) (h : Transfers mps a data ep) {i : Interrupt}
    (hmem : load i.1 a data.length = data) (hroom : Room mps i) :
    (rest mps data (step ep i).1).length ≤ (rest mps data ep).length - 1 := by
  obtain ⟨-, hrest, -⟩ := step_spec hmps h hmem
  have hlen := congrArg List.length hrest
  rw [List.length_append, List.length_map] at hlen
  rcases Nat.lt_or_ge ep.xferCount.toNat data.length with hmore | hdone
  · have hwritten := step_writes h hroom hmore
    omega
  · have hnil : (rest mps data ep).length = 0 := by
      rw [rest, List.drop_of_length_le hdone, Cut.cut_nil, List.length_nil]
    omega

end Transfers

/-! ## What the controller is told -/

theorem length_cut (n : Nat) (l : List UInt8) : (Cut.cut n l).length = (l.length + n - 1) / n := by
  simp [Cut.cut]

section Told

variable {data : List UInt8} {ep : Ep} {mps : UInt16} {a : Nat} {len : UInt32}

theorem xfersize_eq (hlen : len.toNat = data.length) (hsmall : data.length < 524288) :
    (dcdEpTx (dcdEpOpen ep mps) a len).2.xfersize.toNat = data.length := by
  simp only [dcdEpTx, usbOtgEPStartXfer]
  split
  · rename_i hzero
    rw [← hlen, hzero]
  · rw [UInt32.toNat_mod, hlen]
    exact Nat.mod_eq_of_lt hsmall

theorem pktcnt_eq (hmps : 0 < mps.toNat) (hlen : len.toNat = data.length) (hne : data ≠ [])
    (hfew : (Cut.cut mps.toNat data).length < 1024) :
    (dcdEpTx (dcdEpOpen ep mps) a len).2.pktcnt.toNat = (Cut.cut mps.toNat data).length := by
  have hpos := List.length_pos_of_ne_nil hne
  have hzero : ¬len = 0 := by
    rintro rfl
    rw [← hlen] at hpos
    exact absurd hpos (by decide)
  rw [length_cut] at hfew ⊢
  have hcount : data.length + mps.toNat - 1 < 1024 * mps.toNat :=
    (Nat.div_lt_iff_lt_mul hmps).mp hfew
  have hlt := mps.toNat_lt
  have hone : (1 : UInt32) ≤ len := by
    rw [UInt32.le_iff_toNat_le, hlen]
    exact hpos
  have hsum : (len - 1 + mps.toUInt32).toNat = data.length + mps.toNat - 1 := by
    rw [UInt32.toNat_add, UInt32.toNat_sub_of_le _ _ hone, hlen, UInt16.toNat_toUInt32,
      show (1 : UInt32).toNat = 1 from rfl]
    omega
  simp only [dcdEpTx, dcdEpOpen, usbOtgEPStartXfer, if_neg hzero]
  rw [UInt32.toNat_mod, UInt32.toNat_div, hsum, UInt16.toNat_toUInt32]
  exact Nat.mod_eq_of_lt hfew

end Told

/-! ## Whole runs -/

section Runs

variable {mps a : Nat} {data : List UInt8} {ep : Ep}

theorem transfers_run (hmps : 0 < mps) (h : Transfers mps a data ep) {is : List Interrupt}
    (hmem : ∀ i ∈ is, load i.1 a data.length = data) :
    rest mps data ep =
        (Run.run step ep is).2.map Write.packet ++ rest mps data (Run.run step ep is).1 ∧
      (∀ w ∈ (Run.run step ep is).2, w.Fits) ∧
      (rest mps data (Run.run step ep is).1).length ≤
        (rest mps data ep).length - is.countP (fun i => Room mps i) := by
  induction is generalizing ep with
  | nil => exact ⟨rfl, by simp, by simp⟩
  | cons i is ih =>
    have hmem0 := hmem i List.mem_cons_self
    obtain ⟨hnext, hrest, hfits⟩ := step_spec hmps h hmem0
    obtain ⟨hmore, hmoreFits, hless⟩ := ih hnext fun j hj => hmem j (List.mem_cons_of_mem i hj)
    rw [Run.run_cons]
    refine ⟨?_, ?_, ?_⟩
    · simp only [List.map_append, List.append_assoc]
      rw [← hmore]
      exact hrest
    · intro w hw
      rcases List.mem_append.mp hw with hw | hw
      · exact hfits w hw
      · exact hmoreFits w hw
    · have hlen := congrArg List.length hrest
      rw [List.length_append] at hlen
      rw [List.countP_cons]
      dsimp only
      split
      · -- An interrupt that counts has room, so it writes a packet.
        rename_i hroom
        have hprogress := step_progress hmps h hmem0 (by simpa using hroom)
        omega
      · omega

end Runs

section Transfer

variable {mps : UInt16} {a : Nat} {data : List UInt8} {ep : Ep} {len : UInt32}

/-- A transfer goes out in packets as it is cut, however the FIFO drains and whenever the
memory is read; none is written without room for it. If the FIFO has had room for a packet
often enough, all is out. The controller is told their number and the length. -/
theorem packets_of_transfer (hmps : 0 < mps.toNat) (hlen : len.toNat = data.length)
    {is : List Interrupt} (hmem : ∀ i ∈ is, load i.1 a data.length = data) :
    let tx := dcdEpTx (dcdEpOpen ep mps) a len
    let writes := (Run.run step tx.1 is).2
    writes.map Write.packet <+: Cut.cut mps.toNat data ∧ (∀ w ∈ writes, w.Fits) ∧
      ((Cut.cut mps.toNat data).length ≤ is.countP (fun i => Room mps.toNat i) →
        writes.map Write.packet = Cut.cut mps.toNat data) ∧
      (data.length < 524288 → tx.2.xfersize.toNat = data.length) ∧
      (data ≠ [] → (Cut.cut mps.toNat data).length < 1024 →
        tx.2.pktcnt.toNat = (Cut.cut mps.toNat data).length) ∧
      (data = [] → tx.2.pktcnt = 1 ∧ writes = []) := by
  intro tx writes
  have hstart : Transfers mps.toNat a data tx.1 := transfers_start hlen
  have hall : rest mps.toNat data tx.1 = Cut.cut mps.toNat data := rfl
  obtain ⟨hrest, hfits, hless⟩ := transfers_run hmps hstart hmem
  rw [hall] at hrest hless
  refine ⟨⟨_, hrest.symm⟩, hfits, ?_, xfersize_eq hlen, pktcnt_eq hmps hlen, ?_⟩
  · intro henough
    have hnil := List.length_eq_zero_iff.mp (by omega :
      (rest mps.toNat data (Run.run step tx.1 is).1).length = 0)
    rw [hnil, List.append_nil] at hrest
    exact hrest.symm
  · rintro rfl
    have hzero : len = 0 := UInt32.toNat_inj.mp hlen
    refine ⟨?_, ?_⟩
    · simp only [tx, dcdEpTx, usbOtgEPStartXfer, hzero, if_true]
    · rw [Cut.cut_nil] at hrest
      exact List.map_eq_nil_iff.mp (List.append_eq_nil_iff.mp hrest.symm).1

theorem packets_of_transfer_seventy :
    let ep : Ep := { maxpacket := 0, xferBuff := 0, xferLen := 0, xferCount := 0 }
    let tx := dcdEpTx (dcdEpOpen ep 64) 5 70
    (Run.run step tx.1 [(fun _ => 1, [16]), (fun _ => 1, [20, 3]), (fun _ => 1, [64])]).2.map
        Write.packet = [load (fun _ => 1) 5 64, load (fun _ => 1) 69 6] ∧
      tx.2.xfersize.toNat = 70 ∧ tx.2.pktcnt.toNat = 2 := by
  intro ep tx
  have hmem : ∀ i ∈ [((fun _ => 1, [16]) : Interrupt), (fun _ => 1, [20, 3]), (fun _ => 1, [64])],
      load i.1 5 (load (fun _ => 1) 5 70).length = load (fun _ => 1) 5 70 := by
    intro i hi
    simp only [List.mem_cons, List.not_mem_nil, or_false] at hi
    rcases hi with rfl | rfl | rfl <;> rw [load_length]
  have hcut : Cut.cut 64 (load (fun _ => 1) 5 70) =
      [load (fun _ => 1) 5 64, load (fun _ => 1) 69 6] := by decide +kernel
  obtain ⟨-, -, hall, hsize, hcount, -⟩ := @packets_of_transfer 64 5 (load (fun _ => 1) 5 70) ep 70
    (by decide) (by rw [load_length]; rfl) _ hmem
  refine ⟨?_, ?_, ?_⟩
  · rw [← hcut]
    exact hall (by decide +kernel)
  · exact hsize (by decide +kernel)
  · exact hcount (by decide +kernel) (by decide +kernel)

end Transfer

end Lrndis.Usb
