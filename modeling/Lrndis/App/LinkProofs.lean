import Lrndis.App.LinkOutput

/-!
# Frames of `linkoutput_fn` on the wire

The copy comes before the second `rndis_can_send`, so after 200 waits in vain it
overwrites the frame that is still being read. Runs in which no store meets a busy
transmitter deliver every frame.
-/

namespace Lrndis.Link

open Mem Transmit Run

/-! ## The copy -/

def Pc.Copied (data : List UInt8) : Pc → Prop
  | .idle | .wait _ _ => True
  | .next p q size => p.flatten = data.take size ++ q.flatten ∧ size ≤ ethMaxPacketSize
  | .copying p q bytes pos =>
    p.flatten = data.take pos ++ (bytes ++ q.flatten) ∧ pos + bytes.length ≤ ethMaxPacketSize
  | .check p size | .send p size | .enter p size =>
    p.flatten = data.take size ∧ size ≤ ethMaxPacketSize

/-- Past the check, nothing but this call makes the transmitter busy. -/
def Pc.Checked (state : TxState) : Pc → Prop
  | .send _ _ => state = .ready
  | .enter _ size => state = .ready ∧ 1 ≤ size
  | _ => True

theorem Pc.Checked.mono {state state' : TxState} {pc : Pc} (h : pc.Checked state)
    (hready : state = .ready → state' = .ready) : pc.Checked state' := by
  cases pc with
  | send p size => exact hready h
  | enter p size => exact ⟨hready h.1, h.2⟩
  | _ => trivial

/-- The step from this state stores a byte only while the transmitter is ready, and
gets to `rndis_send` only with something to send. -/
def Good (s : Sys) : Input → Prop
  | .main =>
    match s.pc with
    | .copying _ _ (_ :: _) _ => s.tx.state = .ready
    | .send _ size => 1 ≤ size
    | _ => True
  | _ => True

instance (s : Sys) (i : Input) : Decidable (Good s i) := by
  unfold Good
  cases i with
  | main =>
    cases s.pc with
    | copying p q bytes pos => cases bytes <;> infer_instance
    | _ => infer_instance
  | _ => infer_instance

/-! ## The frame on its way -/

structure Idle (s : Sys) (out : List Output) : Prop where
  ready : s.tx.state = .ready
  none : s.pending = none
  order : stream out = (sent out).flatMap packets

/-- `sofar` are the packets that the controller has read, and the rest of the message is
what it will read from the present transfer and from the later ones. -/
structure Sending (s : Sys) (out : List Output) (frame : List UInt8) : Prop where
  busy : Busy s.tx
  kept : s.data.bytes.take frame.length = frame
  order : ∃ t n before sofar, s.pending = some (t, n) ∧ sent out = before ++ [frame] ∧
    stream out = before.flatMap packets ++ sofar ∧
    sofar ++ (Cut.cut rndisDataInSz (unread s t n) ++
      (left s.mem s.tx).flatMap (Cut.cut rndisDataInSz)) = packets frame

structure Inv (s : Sys) (out : List Output) : Prop where
  sizes : ∀ f ∈ sent out, f.length ≤ ethMaxPacketSize
  copied : s.pc.Copied s.data.bytes
  checked : s.pc.Checked s.tx.state
  phase : Idle s out ∨ ∃ frame, Sending s out frame

theorem inv_boot : Inv Sys.boot [] where
  sizes := by simp [sent]
  copied := trivial
  checked := trivial
  phase := Or.inl ⟨rfl, rfl, rfl⟩

theorem Inv.idle {s : Sys} {out : List Output} (h : Inv s out) (hready : s.tx.state = .ready) :
    Idle s out := by
  apply h.phase.resolve_right
  rintro ⟨frame, hs⟩
  exact busy_not_ready hs.busy hready

theorem inv_move {s : Sys} {out : List Output} (h : Inv s out) (pc : Pc) (more : List Output)
    (hcopied : pc.Copied s.data.bytes) (hchecked : pc.Checked s.tx.state)
    (hsent : sent more = []) (hstream : stream more = []) :
    Inv { s with pc := pc } (out ++ more) := by
  have hs : sent (out ++ more) = sent out := by rw [sent_append, hsent, List.append_nil]
  have ht : stream (out ++ more) = stream out := by rw [stream_append, hstream, List.append_nil]
  refine ⟨by rw [hs]; exact h.sizes, hcopied, hchecked, ?_⟩
  rcases h.phase with hi | ⟨frame, hf⟩
  · exact Or.inl ⟨hi.ready, hi.none, by rw [hs, ht]; exact hi.order⟩
  · exact Or.inr ⟨frame, hf.busy, hf.kept, by rw [hs, ht]; exact hf.order⟩

/-! ## Steps of the main program -/

theorem inv_store (s : Sys) (out : List Output) (p q : Chain) (b : UInt8) (bytes : List UInt8)
    (pos : Nat) (h : Inv s out) (hpc : s.pc = .copying p q (b :: bytes) pos)
    (hready : s.tx.state = .ready) :
    Inv { s with data := s.data.setByte pos b, pc := .copying p q bytes (pos + 1) } out := by
  have hcopied := h.copied
  rw [hpc] at hcopied
  obtain ⟨hflat, hroom⟩ := hcopied
  rw [List.length_cons] at hroom
  have hpos : pos < dataSize := by
    unfold ethMaxPacketSize ethHeaderSize rndisMtu at hroom
    unfold dataSize rndisMtu
    omega
  have hidle := h.idle hready
  refine ⟨h.sizes, ⟨?_, by omega⟩, trivial, Or.inl ⟨hready, hidle.none, hidle.order⟩⟩
  rw [Buffer.take_setByte _ _ _ hpos, hflat]
  simp

theorem inv_enter (s : Sys) (out : List Output) (p : Chain) (size : Nat) (h : Inv s out)
    (hpc : s.pc = .enter p size) :
    Inv (mainStep s).1 (out ++ (mainStep s).2) := by
  have hcopied := h.copied
  have hchecked := h.checked
  rw [hpc] at hcopied hchecked
  obtain ⟨hflat, hroom⟩ := hcopied
  obtain ⟨hready, hpos⟩ := hchecked
  have hidle := h.idle hready
  have hsize : size ≤ dataSize := Nat.le_trans hroom (by decide)
  -- The transmitter reads `data`, and by now the whole chain is in there.
  have hload : load s.mem 0 (size : Int).toNat = p.flatten := by
    rw [Int.toNat_natCast, hflat]
    exact s.data.load_byte size hsize
  have hlen : p.flatten.length = size := by
    rw [hflat, List.length_take, Buffer.length_bytes]
    omega
  have hne : p.flatten ≠ [] := by
    intro hnil
    rw [hnil, List.length_nil] at hlen
    omega
  obtain ⟨t, ht, hbytes, hleft, hstate, -, -, -⟩ :=
    start_spec s.mem s.tx 0 size (by omega)
  rw [hload] at hbytes hleft
  have hstep : mainStep s =
      ({ s with tx := (start s.mem s.tx 0 size).1, pc := .idle, pending := some (t, 0) },
        [.returned p .ok]) := by
    unfold mainStep
    rw [hpc]
    simp only [ht, issue]
  rw [hstep]
  have hsent : sent (out ++ [.returned p .ok]) = sent out ++ [p.flatten] := by simp [sent]
  have hstream : stream (out ++ [.returned p .ok]) = stream out := by simp [stream]
  refine ⟨?_, trivial, trivial, Or.inr ⟨p.flatten, Or.inl hstate, ?_, t, 0, sent out, [], rfl,
    hsent, ?_, ?_⟩⟩
  · intro f hf
    rw [hsent, List.mem_append, List.mem_singleton] at hf
    rcases hf with hf | rfl
    · exact h.sizes f hf
    · omega
  · rw [hlen]
    exact hflat.symm
  · rw [hstream, hidle.order, List.append_nil]
  · rw [packets_eq p.flatten hne, ← hbytes, ← hleft]
    rfl

theorem inv_main (s : Sys) (out : List Output) (h : Inv s out) (hgood : Good s .main) :
    Inv (mainStep s).1 (out ++ (mainStep s).2) := by
  have hcopied := h.copied
  have hchecked := h.checked
  unfold Good at hgood
  cases hpc : s.pc with
  | enter p size => exact inv_enter s out p size h hpc
  | copying p q bytes pos =>
    rw [hpc] at hcopied hgood
    unfold mainStep
    rw [hpc]
    cases bytes with
    | nil =>
      obtain ⟨hflat, hroom⟩ := hcopied
      exact inv_move h _ [] ⟨hflat, hroom⟩ trivial rfl rfl
    | cons b bytes =>
      -- A store is the one step that can change what the controller still has to read.
      rw [List.append_nil]
      exact inv_store s out p q b bytes pos h hpc hgood
  | next p q size =>
    rw [hpc] at hcopied
    obtain ⟨hflat, hroom⟩ := hcopied
    unfold mainStep
    rw [hpc]
    cases q with
    | nil => exact inv_move h _ [] ⟨by simpa using hflat, hroom⟩ trivial rfl rfl
    | cons payload q =>
      simp only
      split
      · exact inv_move h _ [_] trivial trivial rfl rfl
      · rename_i hfits
        refine inv_move h _ [] ⟨hflat, ?_⟩ trivial rfl rfl
        unfold ethMaxPacketSize ethHeaderSize
        omega
  | check p size =>
    rw [hpc] at hcopied
    unfold mainStep
    rw [hpc]
    simp only
    split
    · -- From here on only this call can make the transmitter busy.
      rename_i hcan
      have hready : s.tx.state = .ready := (rndisCanSend_iff s.tx).mp hcan
      exact inv_move h _ [] hcopied hready rfl rfl
    · exact inv_move h _ [_] trivial trivial rfl rfl
  | send p size =>
    rw [hpc] at hcopied hchecked hgood
    have haccepts : accepts s.tx size = true := by
      rw [accepts_iff]
      have := hcopied.2
      exact ⟨hchecked, by omega, by omega⟩
    unfold mainStep
    rw [hpc]
    simp only [haccepts, if_true]
    exact inv_move h _ [] hcopied ⟨hchecked, hgood⟩ rfl rfl
  | wait p i =>
    unfold mainStep
    rw [hpc]
    simp only
    split
    · exact inv_move h _ [] trivial trivial rfl rfl
    · exact inv_move h _ [] ⟨by simp, Nat.zero_le _⟩ trivial rfl rfl
  | idle =>
    unfold mainStep
    rw [hpc]
    simpa using h

/-! ## Steps of the controller -/

theorem inv_read (s : Sys) (out : List Output) (h : Inv s out) :
    Inv (step s .read).1 (out ++ (step s .read).2) := by
  unfold step
  rcases h.phase with hi | ⟨frame, hs⟩
  · rw [hi.none]
    simpa using h
  obtain ⟨t, n, before, sofar, hpending, hsent, hstream, hrest⟩ := hs.order
  rw [hpending]
  simp only
  split
  · simpa using h
  rename_i hpacket
  have hne : unread s t n ≠ [] := by
    intro hnil
    rw [hnil] at hpacket
    exact hpacket rfl
  have hdrop : (unread s t n).drop rndisDataInSz =
      unread s t (n + ((unread s t n).take rndisDataInSz).length) := by
    unfold unread
    rw [List.drop_drop, List.length_take]
    rcases Nat.le_total rndisDataInSz ((t.bytes s.mem s.tx.first).drop n).length with hle | hle
    · rw [Nat.min_eq_left hle]
    · rw [Nat.min_eq_right hle, List.length_drop] at *
      rw [List.drop_eq_nil_of_le (by omega), List.drop_eq_nil_of_le (by omega)]
  have hs' : sent (out ++ [.packet ((unread s t n).take rndisDataInSz)]) = sent out := by
    simp [sent]
  have ht' : stream (out ++ [.packet ((unread s t n).take rndisDataInSz)]) =
      stream out ++ [(unread s t n).take rndisDataInSz] := by simp [stream]
  refine ⟨by rw [hs']; exact h.sizes, h.copied, h.checked, Or.inr ⟨frame, hs.busy, hs.kept, t, _,
    before, sofar ++ [(unread s t n).take rndisDataInSz], rfl, by rw [hs', hsent], ?_, ?_⟩⟩
  · rw [ht', hstream, List.append_assoc]
  · rw [← hrest, Cut.cut_of_ne_nil _ (by decide) (unread s t n) hne, hdrop]
    simp only [List.append_assoc, List.cons_append]
    rfl

theorem inv_complete (s : Sys) (out : List Output) (epnum : UInt8) (h : Inv s out) :
    Inv (step s (.complete epnum)).1 (out ++ (step s (.complete epnum)).2) := by
  unfold step
  simp only
  split
  · rename_i hep
    rcases h.phase with hi | ⟨frame, hs⟩
    · rw [hi.none]
      simpa using h
    obtain ⟨t, n, before, sofar, hpending, hsent, hstream, hrest⟩ := hs.order
    have hready := busy_not_ready hs.busy
    rw [hpending]
    simp only
    split
    · rename_i hread
      rw [hread, Cut.cut_nil, List.nil_append] at hrest
      have hcomplete := complete_spec s.mem s.tx epnum hs.busy hep
      cases hleft : left s.mem s.tx with
      | nil =>
        -- The last transfer is done: the message is complete.
        rw [hleft] at hcomplete hrest
        simp only at hcomplete
        rw [List.flatMap_nil, List.append_nil] at hrest
        simp only [hcomplete, issue, List.append_nil]
        refine ⟨h.sizes, h.copied, h.checked.mono fun _ => rfl, Or.inl ⟨rfl, rfl, ?_⟩⟩
        rw [hstream, hsent, hrest]
        simp
      | cons x rest =>
        rw [hleft] at hcomplete hrest
        obtain ⟨t', state, hstep, hbytes, hleft', hbusy⟩ := hcomplete
        simp only [hstep, issue, List.append_nil]
        refine ⟨h.sizes, h.copied, h.checked.mono fun hr => absurd hr hready,
          Or.inr ⟨frame, hbusy, hs.kept, t', 0, before, sofar, rfl, hsent, hstream, ?_⟩⟩
        rw [← hrest, ← hbytes, ← hleft', List.flatMap_cons]
        rfl
    · simpa using h
  · rename_i hep
    rw [other_endpoint s.mem s.tx epnum hep]
    simpa [issue] using h

/-! ## Runs -/

theorem inv_step (s : Sys) (out : List Output) (i : Input) (h : Inv s out) (hgood : Good s i) :
    Inv (step s i).1 (out ++ (step s i).2) := by
  cases i with
  | linkoutput p =>
    unfold step
    simp only
    split
    · exact inv_move h _ [] trivial trivial rfl rfl
    · simpa using h
  | main => exact inv_main s out h hgood
  | read => exact inv_read s out h
  | complete epnum => exact inv_complete s out epnum h

theorem Inv.delivers {s : Sys} {out : List Output} (h : Inv s out) : Delivers s out where
  described f hf := ⟨message_described f (h.sizes f hf), message_ends_short f⟩
  done hready := (h.idle hready).order
  partway hbusy := by
    rcases h.phase with hi | ⟨frame, hs⟩
    · exact absurd hi.ready hbusy
    · obtain ⟨t, n, before, sofar, -, hsent, hstream, hrest⟩ := hs.order
      exact ⟨before, frame, sofar, hsent, hstream, ⟨_, hrest⟩, hs.kept⟩

/-- As long as no store meets a busy transmitter and no empty chain gets to
`rndis_send`, every interleaving delivers the frames. -/
theorem frames_delivered (is : List Input) (hgood : Along step Good Sys.boot is) :
    Delivers (run step Sys.boot is).1 (run step Sys.boot is).2 :=
  (history_along (fun s out i h hg => inv_step s out i h hg) inv_boot hgood).delivers

def oneFrame (p : Chain) (steps : Nat) : List Input :=
  .linkoutput p :: List.replicate steps .main

theorem frames_delivered_twoPbufs :
    let is := oneFrame [[7], [8, 9]] 13 ++ [.read, .complete 0x82]
    Along step Good Sys.boot is ∧ Delivers (run step Sys.boot is).1 (run step Sys.boot is).2 ∧
      sent (run step Sys.boot is).2 = [[7, 8, 9]] := by
  have hgood : Along step Good Sys.boot (oneFrame [[7], [8, 9]] 13 ++ [.read, .complete 0x82]) := by
    decide +kernel
  exact ⟨hgood, frames_delivered _ hgood, by decide +kernel⟩

/-- A frame of 21 bytes, of which the controller has read the first packet. The host
does not poll during the next call, which copies its own frame and returns `ERR_USE`. -/
def overwritten : List Input :=
  oneFrame [List.replicate 21 0x11] 30 ++ [.read, .complete 0x82] ++
    oneFrame [List.replicate 21 0x22] 230 ++ [.read, .complete 0x82]

/-- The last byte of the first frame reaches the host as a byte of the second. And an
empty chain is reported as sent, but is not. -/
theorem frame_overwritten :
    (¬ ∀ is, Delivers (run step Sys.boot is).1 (run step Sys.boot is).2) ∧
    sent (run step Sys.boot overwritten).2 = [List.replicate 21 0x11] ∧
    .returned [List.replicate 21 0x22] .use ∈ (run step Sys.boot overwritten).2 ∧
    (stream (run step Sys.boot overwritten).2)[1]? = some [0x22] ∧
    (run step Sys.boot (oneFrame [] 5)).2 = [.returned [] .ok] := by
  refine ⟨fun h => ?_, by decide +kernel, by decide +kernel, by decide +kernel,
    by decide +kernel⟩
  have hready : (run step Sys.boot overwritten).1.tx.state = .ready := by decide +kernel
  have hmixed : stream (run step Sys.boot overwritten).2 ≠
      (sent (run step Sys.boot overwritten).2).flatMap packets := by decide +kernel
  exact hmixed ((h overwritten).done hready)

end Lrndis.Link
