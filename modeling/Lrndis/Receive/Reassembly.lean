import Lrndis.Receive.Proofs

/-!
# The reassembly buffer

What is in `rndis_rx_buffer` between two packets, and where the copies into it end.
-/

namespace Lrndis.Receive

open Run

/-- `memcpy(&rndis_rx_buffer[rndis_received], usb_rx_buffer, ep->xfer_count)`: where it starts
and where it ends, unless it is not reached. -/
def copied (s : Rx) (p : OutPacket) : Option (Nat × Nat) :=
  if s.rndisReceived + p.xferCount > UInt32.ofNat rndisRxBufferSize then none
  else if s.rndisReceived + p.xferCount ≤ UInt32.ofNat rndisRxBufferSize then
    some (s.rndisReceived.toNat, s.rndisReceived.toNat + p.xferCount.toNat)
  else none

theorem handlePacket_buffer (s : Rx) (size : UInt32) :
    (handlePacket s size).1.rndisRxBuffer = s.rndisRxBuffer := by
  unfold handlePacket
  simp only
  split
  · rfl
  split
  · rfl
  split <;> rfl

theorem step_copied (s : Rx) (p : OutPacket) :
    (step s p).1.rndisRxBuffer = match copied s p with
      | none => s.rndisRxBuffer
      | some (start, _) => s.rndisRxBuffer.write start p.bytes := by
  unfold step usbdRndisDataOut copied
  rw [if_pos rfl]
  split
  · rfl
  split
  · simp only
    generalize (if s.rndisReceived = 0 then _ else s.rndisMessageLength) = messageLength
    split
    · exact handlePacket_buffer _ _
    · rfl
  · rfl

/-- `rest` is what came since the last packet that ended a message or outgrew the buffer. -/
structure Since (ps done rest : List OutPacket) : Prop where
  split : ps = done ++ rest
  boundary : done = [] ∨ ∃ before p, done = before ++ [p] ∧
    (collect (run collect [] before).1 p).2 ≠ []
  unended : (run collect [] rest).2 = []

theorem collect_cases (acc : List UInt8) (p : OutPacket) :
    (collect acc p).2 = [] ∧ (collect acc p).1 = acc ++ p.bytes ∨
      (collect acc p).2 ≠ [] ∧ (collect acc p).1 = [] := by
  unfold collect
  split
  · exact Or.inr ⟨List.cons_ne_nil _ _, rfl⟩
  split
  · exact Or.inr ⟨List.cons_ne_nil _ _, rfl⟩
  · exact Or.inl ⟨rfl, rfl⟩

theorem since_collect (ps : List OutPacket) :
    ∃ done rest, Since ps done rest ∧ (run collect [] ps).1 = (run collect [] rest).1 ∧
      (run collect [] rest).1 = rest.flatMap (·.bytes) := by
  induction ps using List.reverseRecOn with
  | nil => exact ⟨[], [], ⟨rfl, Or.inl rfl, rfl⟩, rfl, rfl⟩
  | append_singleton ps p ih =>
    obtain ⟨done, rest, ⟨hsplit, hboundary, hunended⟩, hsame, hrest⟩ := ih
    rcases collect_cases (run collect [] ps).1 p with ⟨hnone, hacc⟩ | ⟨hsome, hacc⟩
    · refine ⟨done, rest ++ [p], ⟨?_, hboundary, ?_⟩, ?_, ?_⟩
      · rw [hsplit, List.append_assoc]
      · rw [run_snoc, hunended, ← hsame, hnone, List.append_nil]
      · rw [run_snoc, run_snoc, hsame]
      · rw [run_snoc, ← hsame, hacc, hsame, hrest]
        simp
    · refine ⟨ps ++ [p], [], ⟨(List.append_nil _).symm, Or.inr ⟨ps, p, rfl, hsome⟩, rfl⟩, ?_, rfl⟩
      rw [run_snoc, hacc]
      rfl

theorem copied_within {s : Rx} {acc : List UInt8} (h : Holds s acc) (p : OutPacket)
    (start stop : Nat) (hcopy : copied s p = some (start, stop)) :
    stop = start + p.bytes.length ∧ stop ≤ rndisRxBufferSize := by
  have hadd := received_add s acc p h
  have hmax : (UInt32.ofNat rndisRxBufferSize).toNat = rndisRxBufferSize := rfl
  unfold copied at hcopy
  split at hcopy
  · simp at hcopy
  split at hcopy
  · rename_i hroom
    rw [UInt32.le_iff_toNat_le, hadd, hmax] at hroom
    simp only [Option.some.injEq, Prod.mk.injEq] at hcopy
    obtain ⟨rfl, rfl⟩ := hcopy
    rw [xferCount_toNat, h.received]
    exact ⟨rfl, hroom⟩
  · simp at hcopy

/-- Between two packets the buffer has what came since the last boundary, in whole packets,
and no packet is copied past its end. -/
theorem buffer_collects (rxproc : Bool) (ps : List OutPacket) :
    let boot := { Rx.boot with rndisRxproc := rxproc }
    let s := (run step boot ps).1
    s.rndisReceived.toNat % 64 = 0 ∧ s.rndisReceived.toNat ≤ 1536 ∧
    (∃ done rest, Since ps done rest ∧
      s.rndisRxBuffer.bytes.take s.rndisReceived.toNat = rest.flatMap (·.bytes) ∧
      s.rndisReceived.toNat = (rest.flatMap (·.bytes)).length) ∧
    ∀ p,
      ((step s p).1.rndisRxBuffer = match copied s p with
        | none => s.rndisRxBuffer
        | some (start, _) => s.rndisRxBuffer.write start p.bytes) ∧
      ∀ start stop, copied s p = some (start, stop) →
        stop = start + p.bytes.length ∧ stop ≤ 1558 := by
  intro boot s
  obtain ⟨h, -⟩ := run_spec boot [] (holds_empty _ rfl) ps
  obtain ⟨done, rest, hsince, hsame, hrest⟩ := since_collect ps
  have hreceived := h.received
  have hcontent := h.content
  refine ⟨?_, ?_, ⟨done, rest, hsince, ?_, ?_⟩, ?_⟩
  · rw [hreceived]
    exact h.whole
  · rw [hreceived]
    exact h.room
  · rw [hreceived, hcontent, hsame, hrest]
  · rw [hreceived, hsame, hrest]
  · exact fun p => ⟨step_copied s p, copied_within h p⟩

end Lrndis.Receive
