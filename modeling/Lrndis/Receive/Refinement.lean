import Lrndis.Receive.Spec

/-! # The driver computes the reassembler -/

namespace Lrndis.Receive

/-! ## `handle_packet` -/

theorem fields_take (l : List UInt8) (n : Nat) (h : DataPacket.size ≤ n) :
    DataPacket.messageType (l.take n) = DataPacket.messageType l ∧
    DataPacket.messageLength (l.take n) = DataPacket.messageLength l ∧
    DataPacket.dataOffset (l.take n) = DataPacket.dataOffset l ∧
    DataPacket.dataLength (l.take n) = DataPacket.dataLength l := by
  unfold DataPacket.size at h
  unfold DataPacket.messageType DataPacket.messageLength DataPacket.dataOffset
    DataPacket.dataLength
  refine ⟨?_, ?_, ?_, ?_⟩ <;> exact Mem.word32At_take l n _ (by omega)

/-- The outcome depends on the received bytes only, not on what else the buffer holds. -/
theorem handlePacket_spec (s : Rx) (size : UInt32) (m : List UInt8)
    (hm : s.rndisRxBuffer.bytes.take size.toNat = m) (hlen : m.length = size.toNat) :
    handlePacket s size =
      ({ s with usbEthStat := tally s.usbEthStat (.message m) },
        if s.rndisRxproc then calls (.message m) else []) := by
  have h44 : (UInt32.ofNat DataPacket.size).toNat = DataPacket.size := rfl
  unfold handlePacket tally calls
  simp only [UInt32.lt_iff_toNat_lt, h44]
  split
  · have hn : ¬ Named m := by
      rintro ⟨h, -⟩
      omega
    simp [hn]
  rename_i hsize
  -- The fields come out of the whole buffer, but all of them lie in the message.
  obtain ⟨htype, hlength, hoff, hdata⟩ :=
    fields_take s.rndisRxBuffer.bytes size.toNat (by omega)
  rw [hm] at htype hlength hoff hdata
  rw [← htype, ← hlength, ← hoff, ← hdata]
  have hnamed : Named m ↔ ¬ (DataPacket.messageType m ≠ remoteNdisPacketMsg ∨
      DataPacket.messageLength m ≠ size) := by
    unfold Named
    rw [hlen, UInt32.toNat_inj]
    have : DataPacket.size ≤ size.toNat := by omega
    tauto
  have hfits : Fits m ↔ ¬ (DataPacket.dataOffset m + DataPacket.offsetofDataOffset +
      DataPacket.dataLength m ≠ size) := by
    unfold Fits
    rw [hlen, UInt32.toNat_inj, not_not]
  split
  · rename_i hbad
    have hn : ¬ Named m := fun hn => hnamed.mp hn hbad
    simp [hn]
  rename_i hgood
  have hn : Named m := hnamed.mpr hgood
  split
  · rename_i hbad
    have hf : ¬ Fits m := fun hf => hfits.mp hf hbad
    simp [hn, hf]
  · rename_i hsum
    have hf : Fits m := hfits.mpr hsum
    simp [hn, hf, callOf, hm]

/-! ## `usbd_rndis_data_out` -/

/-- What the statics hold between two packets. -/
structure Holds (s : Rx) (acc : List UInt8) : Prop where
  received : s.rndisReceived.toNat = acc.length
  content : s.rndisRxBuffer.bytes.take acc.length = acc
  whole : acc.length % rndisDataOutSz = 0
  room : acc.length ≤ 1536
  announced : acc ≠ [] → s.rndisMessageLength = DataPacket.messageLength acc

theorem holds_empty (s : Rx) (h : s.rndisReceived = 0) : Holds s [] where
  received := by simp [h]
  content := by simp
  whole := rfl
  room := by simp
  announced := by simp

theorem Holds.boundary {s : Rx} (h : Holds s []) : s.rndisReceived = 0 :=
  UInt32.toNat_inj.mp h.received

theorem holds_boot : Holds Rx.boot [] := holds_empty _ rfl

theorem xferCount_toNat (p : OutPacket) : p.xferCount.toNat = p.bytes.length := by
  have := p.fits
  unfold rndisDataOutSz at this
  rw [OutPacket.xferCount, UInt32.toNat_ofNat']
  omega

theorem received_add (s : Rx) (acc : List UInt8) (p : OutPacket) (h : Holds s acc) :
    (s.rndisReceived + p.xferCount).toNat = acc.length + p.bytes.length := by
  have := p.fits
  have := h.room
  unfold rndisDataOutSz at *
  rw [UInt32.toNat_add, h.received, xferCount_toNat]
  omega

theorem captured_length (s : Rx) (acc : List UInt8) (p : OutPacket) (h : Holds s acc)
    (buffer : List UInt8) (hbuf : buffer.take (acc.length + p.bytes.length) = acc ++ p.bytes)
    (hfull : p.bytes.length = rndisDataOutSz) :
    (if s.rndisReceived = 0 then DataPacket.messageLength buffer else s.rndisMessageLength) =
      DataPacket.messageLength (acc ++ p.bytes) := by
  unfold rndisDataOutSz at hfull
  split
  · rw [← hbuf]
    exact (fields_take _ _ (by unfold DataPacket.size; omega)).2.1.symm
  · rename_i hne
    have hacc : acc ≠ [] := by
      rintro rfl
      exact hne (UInt32.toNat_inj.mp (by simp [h.received]))
    have hpos := List.length_pos_of_ne_nil hacc
    have hwhole := h.whole
    unfold rndisDataOutSz at hwhole
    rw [h.announced hacc]
    exact (Mem.word32At_append_left acc p.bytes 4 (by omega)).symm

theorem ends_iff (s : Rx) (acc : List UInt8) (p : OutPacket) (h : Holds s acc)
    (buffer : List UInt8) (hbuf : buffer.take (acc.length + p.bytes.length) = acc ++ p.bytes) :
    (p.xferCount ≠ UInt32.ofNat rndisDataOutSz ∨
      s.rndisReceived + p.xferCount =
        if s.rndisReceived = 0 then DataPacket.messageLength buffer else s.rndisMessageLength) ↔
      Ends (acc ++ p.bytes) p := by
  have hcount : p.xferCount = UInt32.ofNat rndisDataOutSz ↔
      p.bytes.length = rndisDataOutSz := by
    rw [← UInt32.toNat_inj, xferCount_toNat]
    rfl
  unfold Ends
  rw [ne_eq, hcount]
  by_cases hfull : p.bytes.length = rndisDataOutSz
  · rw [captured_length s acc p h buffer hbuf hfull, ← UInt32.toNat_inj,
      received_add s acc p h, List.length_append]
  · simp [hfull]

/-- One packet: the driver and the reassembler stay together, and the driver does what
the ending calls for. -/
theorem step_spec (s : Rx) (acc : List UInt8) (p : OutPacket) (h : Holds s acc) :
    Holds (step s p).1 (collect acc p).1 ∧
      (step s p).1.usbEthStat = (collect acc p).2.foldl tally s.usbEthStat ∧
      (step s p).1.rndisRxproc = s.rndisRxproc ∧
      (step s p).2 = if s.rndisRxproc then (collect acc p).2.flatMap calls else [] := by
  have hadd := received_add s acc p h
  have hmax : (UInt32.ofNat rndisRxBufferSize).toNat = rndisRxBufferSize := rfl
  unfold step usbdRndisDataOut collect
  simp only [if_true, gt_iff_lt, UInt32.lt_iff_toNat_lt, UInt32.le_iff_toNat_le, hadd, hmax]
  split
  · exact ⟨holds_empty _ rfl, rfl, rfl, by simp [calls]⟩
  rename_i hover
  have hroom : acc.length + p.bytes.length ≤ rndisRxBufferSize := by omega
  rw [if_pos hroom]
  have hbuf : (s.rndisRxBuffer.write s.rndisReceived.toNat p.bytes).bytes.take
      (acc.length + p.bytes.length) = acc ++ p.bytes := by
    rw [h.received, Mem.Buffer.take_write _ _ _ hroom, h.content]
  have hends := ends_iff s acc p h _ hbuf
  by_cases hend : Ends (acc ++ p.bytes) p
  · -- The message is complete: `handle_packet` sees exactly its bytes.
    rw [if_pos (hends.mpr hend), if_pos hend,
      handlePacket_spec _ _ (acc ++ p.bytes) (by rw [hadd]; exact hbuf) (by rw [hadd]; simp)]
    exact ⟨holds_empty _ rfl, rfl, rfl, by simp⟩
  · -- A full packet in the middle of the message.
    rw [if_neg (fun hc => hend (hends.mp hc)), if_neg hend]
    have hlen : p.bytes.length = rndisDataOutSz := by
      by_contra hne
      exact hend (Or.inl hne)
    refine ⟨⟨?_, ?_, ?_, ?_, ?_⟩, rfl, rfl, by simp⟩
    · rw [List.length_append]; exact hadd
    · rw [List.length_append]; exact hbuf
    · have := h.whole
      unfold rndisDataOutSz at *
      rw [List.length_append]
      omega
    · have := h.whole
      unfold rndisDataOutSz at *
      unfold rndisRxBufferSize ethMaxPacketSize ethHeaderSize rndisMtu DataPacket.size at hroom
      rw [List.length_append]
      omega
    · intro _
      exact captured_length s acc p h _ hbuf hlen

end Lrndis.Receive
