import Lrndis.Control.Tracking

/-!
# The information buffer of a SET

`rndis_handle_set_msg` reads where the offset in the message says, without a look at the
length in the message, or at how much of it was received.
-/

namespace Lrndis.Control

open Mem

/-- `INFBUF`, as the distance from `encapsulated_buffer` in 32 bits. -/
def infbuf (m : List UInt8) : UInt32 := SetMsg.informationBufferOffset m + 8

/-- Where the words start that are read of the information: the value of a packet filter, or
the four fields of a `rndis_config_parameter_t` that are passed on. -/
def infoReads (m : List UInt8) : List UInt32 :=
  if SetMsg.oid m = oidGenRndisConfigParameter then
    [infbuf m, infbuf m + 12, infbuf m + 4, infbuf m + 16]
  else if SetMsg.oid m = oidGenCurrentPacketFilter then [infbuf m]
  else []

theorem informationBufferOffset_set (b : Buffer encBufSize) (type length status : UInt32) :
    SetMsg.informationBufferOffset
        (((b.setWord32 0 type).setWord32 4 length).setWord32 12 status).bytes =
      SetMsg.informationBufferOffset b.bytes := by
  show Buffer.word32 _ 20 = Buffer.word32 _ 20
  rw [Buffer.word32_setWord32_other _ _ _ _ (by decide),
    Buffer.word32_setWord32_other _ _ _ _ (by decide),
    Buffer.word32_setWord32_other _ _ _ _ (by decide)]

/-- Memory outside of the buffer matters only where the information is read. -/
theorem rndisHandleSetMsg_reads (s : Ctl) (around around' : UInt32 → UInt32)
    (h : ∀ a ∈ infoReads s.encapsulatedBuffer.bytes, around a = around' a) :
    rndisHandleSetMsg s around = rndisHandleSetMsg s around' := by
  by_cases hconfig : SetMsg.oid s.encapsulatedBuffer.bytes = oidGenRndisConfigParameter
  · unfold rndisHandleSetMsg
    simp only [if_pos hconfig]
  by_cases hfilter : SetMsg.oid s.encapsulatedBuffer.bytes = oidGenCurrentPacketFilter
  · have hread : around (infbuf s.encapsulatedBuffer.bytes) =
        around' (infbuf s.encapsulatedBuffer.bytes) := by
      apply h
      unfold infoReads
      rw [if_neg hconfig, if_pos hfilter]
      exact List.mem_singleton_self _
    unfold infbuf at hread
    unfold rndisHandleSetMsg wordAround
    simp only [if_neg hconfig, if_pos hfilter, informationBufferOffset_set, hread]
  · unfold rndisHandleSetMsg
    simp only [if_neg hconfig, if_neg hfilter]

/-- The message says that there are at least 4 bytes of information, behind the fixed part
and within the `n` bytes that were received. -/
def InfoWithin (m : List UInt8) (n : Nat) : Prop :=
  4 ≤ (SetMsg.informationBufferLength m).toNat ∧
    SetMsg.size ≤ 8 + (SetMsg.informationBufferOffset m).toNat ∧
    8 + (SetMsg.informationBufferOffset m).toNat + (SetMsg.informationBufferLength m).toNat ≤ n

instance (m : List UInt8) (n : Nat) : Decidable (InfoWithin m n) := by
  unfold InfoWithin; infer_instance

def setStatus (s : Ctl) : UInt32 := s.encapsulatedBuffer.word32 12

/-- With `n` bytes received, the information is read from them only: a packet filter that
is within them is taken over, and information that is not fails the SET. -/
def ReadsReceived (s : Ctl) (n : Nat) : Prop :=
  let m := s.encapsulatedBuffer.bytes
  (∀ a ∈ infoReads m, a.toNat + 4 ≤ n) ∧
  ∀ around, let s' := (rndisHandleSetMsg s around).1
    if InfoWithin m n then
      SetMsg.oid m = oidGenCurrentPacketFilter →
        s'.oidPacketFilter = word32At m (8 + (SetMsg.informationBufferOffset m).toNat) ∧
          setStatus s' = rndisStatusSuccess
    else
      setStatus s' = rndisStatusFailure ∧ s'.oidPacketFilter = s.oidPacketFilter ∧
        s'.rndisState = s.rndisState

theorem setStatus_success (s : Ctl) (around : UInt32 → UInt32)
    (h : SetMsg.oid s.encapsulatedBuffer.bytes = oidGenCurrentPacketFilter ∨
      SetMsg.oid s.encapsulatedBuffer.bytes = oidGenRndisConfigParameter) :
    setStatus (rndisHandleSetMsg s around).1 = rndisStatusSuccess := by
  have hword : ∀ b : Buffer encBufSize, (b.setWord32 12 rndisStatusSuccess).word32 12 =
      rndisStatusSuccess := fun b => Buffer.word32_setWord32 b 12 _ (by decide)
  have hne : oidGenCurrentPacketFilter ≠ oidGenRndisConfigParameter := by decide
  rcases h with h | h
  · unfold setStatus rndisHandleSetMsg
    simp only [h, if_neg hne, if_true]
    exact hword _
  · unfold setStatus rndisHandleSetMsg
    simp only [h, if_true]
    exact hword _

theorem toNat_infbuf {m : List UInt8} {n : Nat} (h : InfoWithin m n) (hn : n ≤ encBufSize)
    (k : UInt32) (hk : k.toNat ≤ 16) :
    (infbuf m + k).toNat = 8 + (SetMsg.informationBufferOffset m).toNat + k.toNat := by
  obtain ⟨-, -, hroom⟩ := h
  have h120 : encBufSize = 120 := rfl
  unfold infbuf
  rw [UInt32.toNat_add, UInt32.toNat_add, show (8 : UInt32).toNat = 8 from rfl]
  omega

theorem infoReads_within {m : List UInt8} {n : Nat} (h : InfoWithin m n) (hn : n ≤ encBufSize)
    (hconfig : SetMsg.oid m = oidGenRndisConfigParameter →
      8 + (SetMsg.informationBufferOffset m).toNat + 20 ≤ n) :
    ∀ a ∈ infoReads m, a.toNat + 4 ≤ n := by
  have hat := toNat_infbuf h hn
  obtain ⟨hfour, -, hroom⟩ := h
  have h0 := hat 0 (by decide)
  rw [UInt32.add_zero, show (0 : UInt32).toNat = 0 from rfl] at h0
  intro a ha
  unfold infoReads at ha
  split at ha
  · rename_i hc
    have hall := hconfig hc
    have h4 := hat 4 (by decide)
    have h12 := hat 12 (by decide)
    have h16 := hat 16 (by decide)
    rw [show (4 : UInt32).toNat = 4 from rfl] at h4
    rw [show (12 : UInt32).toNat = 12 from rfl] at h12
    rw [show (16 : UInt32).toNat = 16 from rfl] at h16
    simp only [List.mem_cons, List.not_mem_nil, or_false] at ha
    rcases ha with rfl | rfl | rfl | rfl
    · omega
    · omega
    · omega
    · omega
  split at ha
  · obtain rfl := List.mem_singleton.mp ha
    omega
  · cases ha

theorem mem_infoReads_config {m : List UInt8} (h : SetMsg.oid m = oidGenRndisConfigParameter) :
    infbuf m + 16 ∈ infoReads m := by
  unfold infoReads
  rw [if_pos h]
  simp

/-- A SET with a packet filter or a configuration parameter is handled right exactly if its
information is within what was received, and all of the parameter's fields are too. -/
theorem reads_received_iff (s : Ctl) (n : Nat) (hn : n ≤ encBufSize)
    (hoid : SetMsg.oid s.encapsulatedBuffer.bytes = oidGenCurrentPacketFilter ∨
      SetMsg.oid s.encapsulatedBuffer.bytes = oidGenRndisConfigParameter) :
    let m := s.encapsulatedBuffer.bytes
    ReadsReceived s n ↔ InfoWithin m n ∧
      (SetMsg.oid m = oidGenRndisConfigParameter →
        8 + (SetMsg.informationBufferOffset m).toNat + 20 ≤ n) := by
  intro m
  have h120 : encBufSize = 120 := rfl
  have hfail : rndisStatusSuccess ≠ rndisStatusFailure := by decide
  constructor
  · rintro ⟨hreads, hdone⟩
    have hwithin : InfoWithin m n := by
      by_contra hno
      have hstatus := hdone fun _ => 0
      simp only at hstatus
      rw [if_neg hno, setStatus_success s _ hoid] at hstatus
      exact hfail hstatus.1
    refine ⟨hwithin, fun hconfig => ?_⟩
    -- The last of the four loads reaches furthest.
    have hlast := hreads _ (mem_infoReads_config hconfig)
    rw [toNat_infbuf hwithin hn 16 (by decide), show (16 : UInt32).toNat = 16 from rfl] at hlast
    omega
  · rintro ⟨hwithin, hconfig⟩
    refine ⟨infoReads_within hwithin hn hconfig, ?_⟩
    intro around s'
    rw [if_pos hwithin]
    intro hfilter
    obtain ⟨hfour, hheader, hroom⟩ := hwithin
    refine ⟨?_, setStatus_success s around (Or.inl hfilter)⟩
    have hvalue := wordAround_filter s.encapsulatedBuffer around
      (SetMsg.informationBufferOffset m) remoteNdisSetCmplt (UInt32.ofNat setCmpltSize)
      rndisStatusSuccess rfl (by unfold SetMsg.size at hheader; omega) (by omega)
    rw [Nat.add_comm 8]
    exact (rndisHandleSetMsg_filter s around _ hfilter hvalue).2

/-- A packet filter of 4 bytes at `off`, in a message of 32 bytes; behind it in the buffer
there are still bytes of a longer message. -/
def filterAt (off : UInt32) : Ctl :=
  { Ctl.boot with
    encapsulatedBuffer := (⟨List.replicate encBufSize 255, by simp⟩ : Buffer encBufSize).write 0
      (bytes32 remoteNdisSetMsg ++ bytes32 32 ++ bytes32 1 ++ bytes32 oidGenCurrentPacketFilter ++
        bytes32 4 ++ bytes32 off ++ bytes32 0 ++ bytes32 1) }

theorem reads_received_behind :
    ReadsReceived (filterAt 20) 32 ∧
      (rndisHandleSetMsg (filterAt 20) fun _ => 0).1.oidPacketFilter = 1 :=
  ⟨(reads_received_iff (filterAt 20) 32 (by decide) (by decide +kernel)).mpr (by decide +kernel),
    by decide +kernel⟩

/-- An offset to behind the message is read there, with success. -/
theorem reads_stale :
    ¬ ReadsReceived (filterAt 100) 32 ∧
      (let s' := (rndisHandleSetMsg (filterAt 100) fun _ => 0).1
      s'.oidPacketFilter = 0xFFFFFFFF ∧ s'.rndisState = .dataInitialized ∧
        setStatus s' = rndisStatusSuccess) := by
  refine ⟨fun h => ?_, by decide +kernel⟩
  have hread := h.1 108 (by decide +kernel)
  exact absurd hread (by decide)

end Lrndis.Control
