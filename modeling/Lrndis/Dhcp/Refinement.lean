import Lrndis.Dhcp.Spec

/-! # The server's table operations are leases -/

namespace Lrndis.Dhcp

open Mem

variable {n : Nat}

/-! ## Looking up entries -/

theorem entryByIp_some {entries : Table n} {ip : UInt32} {i : Fin n}
    (h : entryByIp entries ip = some i) : (entries i).addr = ip := by
  simpa using List.find?_some h

theorem entryByMac_some {entries : Table n} {mac : Mac} {i : Fin n}
    (h : entryByMac entries mac = some i) : (entries i).mac = mac := by
  simpa using List.find?_some h

theorem entryByMac_none {entries : Table n} {mac : Mac} (h : entryByMac entries mac = none)
    (i : Fin n) : (entries i).mac ≠ mac := by
  have := List.find?_eq_none.mp h i (List.mem_finRange i)
  simpa using this

theorem isVacant_iff (entry : Entry) : isVacant entry = true ↔ entry.mac = Buffer.zero 6 := by
  simp [isVacant, eq_comm]

theorem vacantAddress_some {entries : Table n} {i : Fin n}
    (h : vacantAddress entries = some i) : (entries i).mac = Buffer.zero 6 := by
  have hv : isVacant (entries i) = true := List.find?_some (p := fun i => isVacant (entries i)) h
  exact (isVacant_iff _).mp hv

theorem entryByIp_of_addr {entries : Table n}
    (hinj : Function.Injective fun i => (entries i).addr) (i : Fin n) :
    entryByIp entries (entries i).addr = some i := by
  cases h : entryByIp entries (entries i).addr with
  | none =>
    have := List.find?_eq_none.mp h i (List.mem_finRange i)
    simp at this
  | some j => rw [hinj (entryByIp_some h)]

/-! ## Changing entries -/

theorem setMac_self (entries : Table n) (i : Fin n) (m : Mac) :
    setMac entries i m i = { entries i with mac := m } := by
  simp [setMac]

theorem setMac_other (entries : Table n) (i j : Fin n) (m : Mac) (h : j ≠ i) :
    setMac entries i m j = entries j := by
  simp [setMac, h]

theorem setMac_confined (m x : Mac) (entries : Table n) (i : Fin n)
    (hi : (entries i).mac = Buffer.zero 6 ∨ (entries i).mac = m)
    (hx : x = m ∨ x = Buffer.zero 6) : Confined m entries (setMac entries i x) := by
  intro j
  rcases eq_or_ne j i with rfl | hj
  · exact Or.inr ⟨hi, x, hx, setMac_self entries j x⟩
  · exact Or.inl (setMac_other entries i j x hj)

theorem freeClient_confined (m : Mac) (entries : Table n) :
    Confined m entries (freeClient entries m) := by
  unfold freeClient
  cases h : entryByMac entries m with
  | none => exact Confined.refl m entries
  | some i => exact setMac_confined m _ entries i (Or.inr (entryByMac_some h)) (Or.inr rfl)

theorem freeClient_vacant {m : Mac} {entries : Table n} {i : Fin n}
    (h : (freeClient entries m i).mac = Buffer.zero 6) :
    (entries i).mac = Buffer.zero 6 ∨ (entries i).mac = m := by
  rcases freeClient_confined m entries i with hi | ⟨hown, -⟩
  · left
    rw [← hi, h]
  · exact hown

theorem owner_vacant {entries : Table n} (hzero : ∀ i, (entries i).mac = Buffer.zero 6)
    (i : Fin n) : owner entries i = none := (owner_eq_none _ _).mpr (hzero i)

theorem entryByIp_congr {a b : Table n} (h : ∀ i, (a i).addr = (b i).addr) (ip : UInt32) :
    entryByIp a ip = entryByIp b ip := by
  simp only [entryByIp, h]

theorem owner_setMac (entries : Table n) (i : Fin n) (m : Mac) (hm : m ≠ Buffer.zero 6) :
    owner (setMac entries i m) = Function.update (owner entries) i (some m) := by
  funext j
  rcases eq_or_ne j i with rfl | hj
  · rw [Function.update_self, owner_eq_some, setMac_self]
    exact ⟨rfl, hm⟩
  · rw [Function.update_of_ne hj, owner, owner, setMac_other _ _ _ _ hj]

theorem freeClient_unbound {m : Mac} {entries : Table n} (h : ∀ i, (entries i).mac ≠ m) :
    freeClient entries m = entries := by
  unfold freeClient
  cases hm : entryByMac entries m with
  | none => rfl
  | some i => exact absurd (entryByMac_some hm) (h i)

theorem owner_freeClient (entries : Table n) (m : Mac) (hm : m ≠ Buffer.zero 6)
    (hu : Lease.Unique (owner entries)) :
    owner (freeClient entries m) = Lease.release (owner entries) m := by
  funext j
  unfold freeClient Lease.release
  cases h : entryByMac entries m with
  | none =>
    have hj : owner entries j ≠ some m := fun hj =>
      entryByMac_none h j ((owner_eq_some _ _ _).mp hj).1
    rw [if_neg hj]
  | some i =>
    have hi : owner entries i = some m := (owner_eq_some _ _ _).mpr ⟨entryByMac_some h, hm⟩
    simp only [freeEntry]
    rcases eq_or_ne j i with rfl | hj
    · rw [if_pos hi, owner_eq_none, setMac_self]
    · have hne : owner entries j ≠ some m := fun hjm => hj (hu j i m hjm hi)
      rw [if_neg hne, owner, owner, setMac_other _ _ _ _ hj]

theorem freeClient_zero (entries : Table n) : freeClient entries (Buffer.zero 6) = entries := by
  unfold freeClient
  cases h : entryByMac entries (Buffer.zero 6) with
  | none => rfl
  | some i =>
    funext j
    simp only [freeEntry]
    rcases eq_or_ne j i with rfl | hj
    · rw [setMac_self, ← entryByMac_some h]
    · rw [setMac_other _ _ _ _ hj]

theorem owner_grant {entries : Table n} {m : Mac} (hm : m ≠ Buffer.zero 6)
    (hu : Lease.Unique (owner entries)) (i : Fin n) :
    owner (setMac (freeClient entries m) i m) = Lease.grant (owner entries) m i := by
  rw [owner_setMac _ _ _ hm, owner_freeClient _ _ hm hu]
  rfl

theorem setMac_vacant {entries : Table n} {i : Fin n} (h : (entries i).mac = Buffer.zero 6) :
    setMac entries i (Buffer.zero 6) = entries := by
  funext j
  rcases eq_or_ne j i with rfl | hj
  · rw [setMac_self, ← h]
  · exact setMac_other _ _ _ _ hj

/-! ## Replies -/

theorem messageType_eq (data : List UInt8) : messageType data = byteAt data 242 := by
  unfold messageType options
  rw [byteAt_slice _ _ _ _ (by decide)]
  rfl

/-- The reply keeps what the request has before `dp_secs`, apart from `dp_op`, between
`dp_siaddr` and `dp_magic`, and behind the options. -/
theorem fillReply_frame (data : Buffer DhcpType.size) (c : Config) (e : Entry) (ip : UInt32)
    (t : UInt8) (i : Nat) (h1 : 1 ≤ i ∧ i < 8 ∨ 20 ≤ i)
    (h2 : i < 236 ∨ 515 ≤ i ∧
      240 + (fillOptions t c.domain c.dns e.lease c.addr c.addr e.subnet).length ≤ i) :
    (fillReply data c e ip t).byte i = data.byte i := by
  have hcookie : magicCookie.length = 4 := rfl
  unfold fillReply Buffer.setWord32 Buffer.setWord16 Buffer.setByte
  unfold DhcpType.op DhcpType.secs DhcpType.flags DhcpType.yiaddr DhcpType.magic DhcpType.options
  simp only
  rw [Buffer.byte_write_outside _ _ _ _ (by omega),
    Buffer.byte_write_outside _ _ _ _ (by rw [List.length_replicate, DhcpType.optionsSize]; omega),
    Buffer.byte_write_outside _ _ _ _ (by omega), Buffer.byte_write_outside _ _ _ _ (by simp; omega),
    Buffer.byte_write_outside _ _ _ _ (by simp; omega),
    Buffer.byte_write_outside _ _ _ _ (by simp; omega),
    Buffer.byte_write_outside _ _ _ _ (by simp; omega)]

theorem fillReply_chaddr (data : Buffer DhcpType.size) (c : Config) (e : Entry) (ip : UInt32)
    (t : UInt8) : chaddr (fillReply data c e ip t).bytes = chaddr data.bytes := by
  apply Buffer.read_congr
  intro i hi
  unfold DhcpType.chaddr
  exact fillReply_frame data c e ip t _ (by omega) (Or.inl (by omega))

theorem fillReply_yiaddr (data : Buffer DhcpType.size) (c : Config) (e : Entry) (ip : UInt32)
    (t : UInt8) : word32At (fillReply data c e ip t).bytes DhcpType.yiaddr = ip := by
  unfold fillReply DhcpType.yiaddr DhcpType.magic DhcpType.options
  change Buffer.word32 _ 16 = ip
  rw [Buffer.word32_write_outside _ _ _ _ (by omega),
    Buffer.word32_write_outside _ _ _ _ (by omega),
    Buffer.word32_write_outside _ _ _ _ (by omega), Buffer.word32_setWord32 _ _ _ (by decide)]

theorem fillReply_type (data : Buffer DhcpType.size) (c : Config) (e : Entry) (ip : UInt32)
    (t : UInt8) : messageType (fillReply data c e ip t).bytes = t := by
  rw [messageType_eq]
  change Buffer.byte _ 242 = t
  unfold fillReply DhcpType.options
  simp only
  rw [Buffer.byte_write_inside _ _ _ _ (by decide) (by omega) (by simp [fillOptions]; omega)]
  rfl

end Lrndis.Dhcp
