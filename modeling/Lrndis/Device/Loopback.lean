import Lrndis.Device.Reinit

/-!
# The driver's own messages

What the IN path sends for a frame, given back to the OUT path. Both sides take the length
field for the whole message, but a padding byte is no data: the OUT path misses it in the
sum of offset and length.
-/

namespace Lrndis.Device

open Mem Run

/-! ## The stream of a frame -/

def wirePackets (out : List Output) : List (List UInt8) :=
  out.flatMap fun
    | .transfer bytes => Cut.cut rndisDataInSz bytes
    | _ => []

theorem wirePackets_fit (out : List Output) (q : List UInt8) (h : q ∈ wirePackets out) :
    q.length ≤ rndisDataOutSz := by
  obtain ⟨o, -, hq⟩ := List.mem_flatMap.mp h
  cases o with
  | transfer bytes => exact Cut.length_le_of_mem_cut _ bytes q hq
  | _ => simp at hq

def emitted (d : Dev) (data : Nat) (size : Int) : List (List UInt8) :=
  wirePackets (run step d (.send data size :: completions 3)).2

def echoed (d : Dev) (data : Nat) (size : Int) : List Receive.OutPacket :=
  Receive.packetsOf (emitted d data size) (wirePackets_fit _)

theorem wirePackets_transfers (bs : List (List UInt8)) :
    wirePackets (bs.map .transfer) = bs.flatMap (Cut.cut rndisDataInSz) := by
  unfold wirePackets
  rw [List.flatMap_map]

theorem emitted_eq (d : Dev) (hready : d.tx.state = .ready) (data : Nat) (size : Int)
    (hpos : 1 ≤ size) (hmax : size ≤ ethMaxPacketSize) :
    emitted d data size = Transmit.packets (load d.mem data size.toNat) := by
  have hne : load d.mem data size.toNat ≠ [] := by
    intro hnil
    have hlen := congrArg List.length hnil
    rw [load_length, List.length_nil] at hlen
    omega
  unfold emitted
  rw [sends_of_ready d hready data size hpos hmax, Transmit.packets_eq _ hne]
  exact wirePackets_transfers _

/-! ## What the OUT path makes of it -/

theorem total_bounds (size : Nat) (h : size ≤ ethMaxPacketSize) :
    44 + size ≤ Transmit.total size ∧ Transmit.total size ≤ rndisRxBufferSize ∧
      (Transmit.total size = 44 + size ↔ ¬ Transmit.NeedsPadding size) := by
  unfold Transmit.total Transmit.padding
  unfold rndisRxBufferSize ethMaxPacketSize ethHeaderSize rndisMtu DataPacket.size at *
  split
  · rename_i hpad
    have hmod := hpad
    unfold Transmit.NeedsPadding rndisDataInSz DataPacket.size at hmod
    simp only [List.length_singleton]
    refine ⟨by omega, by omega, by omega, fun hno => absurd hpad hno⟩
  · rename_i hpad
    simp only [List.length_nil]
    exact ⟨by omega, by omega, fun _ => hpad, fun _ => by omega⟩

theorem collect_echo (frame : List UInt8) (hmax : frame.length ≤ ethMaxPacketSize)
    (h : ∀ q ∈ Transmit.packets frame, q.length ≤ rndisDataOutSz) :
    run Receive.collect [] (Receive.packetsOf (Transmit.packets frame) h) =
      ([], [.message (Transmit.message frame)]) := by
  obtain ⟨hlow, hhigh, -⟩ := total_bounds frame.length hmax
  have hlen := Transmit.message_length frame
  have hending : Receive.endingOf (Transmit.message frame) = .message (Transmit.message frame) :=
    if_neg (by rw [hlen]; exact Nat.not_lt.mpr hhigh)
  have hannounced := (Transmit.message_described frame hmax).length
  rw [← hending]
  refine Receive.collect_rest _ ?_ ?_ (Or.inr (Or.inr hannounced)) _ [] h rfl ?_ rfl
  · unfold rndisRxBufferSize ethMaxPacketSize ethHeaderSize rndisMtu DataPacket.size at hhigh
    omega
  · intro e _ _ hlt
    rw [hannounced]
    omega
  · intro hnil
    rw [hnil, List.length_nil] at hlen
    omega

theorem echo_accepted (frame : List UInt8) (hmax : frame.length ≤ ethMaxPacketSize) :
    Receive.Named (Transmit.message frame) ∧
      (Receive.Fits (Transmit.message frame) ↔ ¬ Transmit.NeedsPadding frame.length) := by
  obtain ⟨htype, hoffset, hdata, hlength, -⟩ := Transmit.message_described frame hmax
  obtain ⟨hlow, -, hiff⟩ := total_bounds frame.length hmax
  have hlen := Transmit.message_length frame
  constructor
  · refine ⟨?_, htype, hlength⟩
    unfold DataPacket.size
    omega
  · have h8 : DataPacket.offsetofDataOffset.toNat = 8 := rfl
    unfold ethMaxPacketSize ethHeaderSize rndisMtu at hmax
    unfold Receive.Fits
    rw [UInt32.toNat_add, UInt32.toNat_add, h8, hoffset, hdata, hlen, ← hiff]
    omega

/-- One call with exactly the frame, and the receiver is at a message boundary. -/
def LoopsBack (rx : Receive.Rx) (d : Dev) (data : Nat) (size : Int) : Prop :=
  let r := run Receive.step rx (echoed d data size)
  let frame := load d.mem data size.toNat
  r.2.map (fun c => (c.size.toNat, c.data)) = [(frame.length, frame)] ∧ r.1.rndisReceived = 0

theorem callOf_echo (frame : List UInt8) (hmax : frame.length ≤ ethMaxPacketSize) :
    (Receive.callOf (Transmit.message frame)).size.toNat = frame.length ∧
      (Receive.callOf (Transmit.message frame)).data = frame := by
  obtain ⟨-, hoffset, hdata, -, hframe⟩ := Transmit.message_described frame hmax
  refine ⟨hdata, ?_⟩
  unfold Receive.RxprocCall.data
  rw [Receive.start_toNat _ (by omega), hoffset]
  unfold Receive.callOf
  rw [hdata]
  exact hframe

theorem run_echo (rx : Receive.Rx) (hrx : rx.rndisReceived = 0) (hproc : rx.rndisRxproc = true)
    (d : Dev) (hready : d.tx.state = .ready) (data : Nat) (size : Int) (hpos : 1 ≤ size)
    (hmax : size ≤ ethMaxPacketSize) :
    let frame := load d.mem data size.toNat
    let r := run Receive.step rx (echoed d data size)
    r.1.rndisReceived = 0 ∧ r.2 = Receive.calls (.message (Transmit.message frame)) ∧
      r.1.usbEthStat = Receive.tally rx.usbEthStat (.message (Transmit.message frame)) := by
  intro frame r
  have hlen : frame.length ≤ ethMaxPacketSize := by
    rw [load_length]
    omega
  obtain ⟨hholds, hstat, -, hout⟩ :=
    Receive.run_spec rx [] (Receive.holds_empty rx hrx) (echoed d data size)
  have hcollect : run Receive.collect [] (echoed d data size) =
      ([], [.message (Transmit.message frame)]) := by
    unfold echoed
    simp only [emitted_eq d hready data size hpos hmax]
    exact collect_echo frame hlen _
  rw [hcollect] at hholds hstat hout
  rw [List.foldl_cons, List.foldl_nil] at hstat
  refine ⟨hholds.boundary, ?_, hstat⟩
  rw [hproc, if_pos rfl, List.flatMap_singleton] at hout
  exact hout

/-- A frame comes back exactly if its message needs no padding. -/
theorem loops_back_iff (rx : Receive.Rx) (hrx : rx.rndisReceived = 0)
    (hproc : rx.rndisRxproc = true) (d : Dev) (hready : Transmit.rndisCanSend d.tx = true)
    (data : Nat) (size : Int) (hpos : 1 ≤ size) (hmax : size ≤ ethMaxPacketSize) :
    LoopsBack rx d data size ↔ ¬ Transmit.NeedsPadding size.toNat := by
  have hstate : d.tx.state = .ready := (Transmit.rndisCanSend_iff d.tx).mp hready
  obtain ⟨hboundary, hcalls, -⟩ := run_echo rx hrx hproc d hstate data size hpos hmax
  have hlen : (load d.mem data size.toNat).length ≤ ethMaxPacketSize := by
    rw [load_length]
    omega
  obtain ⟨hnamed, hfits⟩ := echo_accepted _ hlen
  obtain ⟨hsize, hdata⟩ := callOf_echo _ hlen
  rw [load_length] at hfits
  unfold LoopsBack
  simp only [hcalls, Receive.calls]
  constructor
  · rintro ⟨hone, -⟩
    rw [← hfits]
    by_contra hno
    rw [if_neg fun hok => hno hok.2] at hone
    simp at hone
  · intro hpad
    rw [if_pos ⟨hnamed, hfits.mpr hpad⟩, List.map_singleton, hsize, hdata]
    exact ⟨rfl, hboundary⟩

theorem loops_back_iff_oneByte : LoopsBack Receive.Rx.boot (Dev.boot fun _ => 7) 0 1 :=
  (loops_back_iff Receive.Rx.boot rfl rfl (Dev.boot fun _ => 7) rfl 0 1 (by decide)
    (by decide)).mpr (by decide)

/-- A frame of 20 bytes fills the header packet. It gets a padding byte, and is refused. -/
theorem padded_refused :
    (¬ ∀ data size, 1 ≤ size → size ≤ 1514 →
      LoopsBack Receive.Rx.boot (Dev.boot fun _ => 7) data size) ∧
    (run Receive.step Receive.Rx.boot (echoed (Dev.boot fun _ => 7) 0 20)).2 = [] ∧
    (run Receive.step Receive.Rx.boot (echoed (Dev.boot fun _ => 7) 0 20)).1.usbEthStat.rxbad =
      1 := by
  let frame : List UInt8 := load (Dev.boot fun _ => 7).mem 0 20
  obtain ⟨-, hcalls, hstat⟩ := run_echo Receive.Rx.boot rfl rfl (Dev.boot fun _ => 7) rfl 0 20
    (by decide) (by decide)
  obtain ⟨hnamed, hfits⟩ := echo_accepted frame (by decide)
  have hpad : ¬ Receive.Fits (Transmit.message frame) := by
    rw [hfits]
    decide
  have hnone :
      (run Receive.step Receive.Rx.boot (echoed (Dev.boot fun _ => 7) 0 20)).2 = [] := by
    rw [hcalls, Receive.calls]
    exact if_neg fun hok => hpad hok.2
  refine ⟨fun h => ?_, hnone, ?_⟩
  · have hone := (h 0 20 (by decide) (by decide)).1
    rw [hnone] at hone
    simp at hone
  · have htally : Receive.tally Receive.Rx.boot.usbEthStat (.message (Transmit.message frame)) =
        { Receive.Rx.boot.usbEthStat with rxbad := 1 } := by
      simp only [Receive.tally, hnamed, hpad, if_true, if_false]
      rfl
    exact congrArg UsbEthStat.rxbad (hstat.trans htally)

end Lrndis.Device
