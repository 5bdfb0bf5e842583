import Lrndis.Dhcp.Refinement

/-!
# The requested address

A request may be shorter than the options area. The search then runs on into bytes that
are not its own. `addrFrom` is the search with the size of the area as a parameter.
-/

namespace Lrndis.Dhcp

open Mem

def addrFrom (attrs : List UInt8) (size i : Nat) : Option UInt32 :=
  match findFrom attrs size dhcpIpaddress i with
  | none => none
  | some ptr =>
    if byteAt attrs (ptr + 1) ≠ 4 then none
    else some (word32At attrs (ptr + 2))

theorem requestedAddr_eq (data : List UInt8) :
    requestedAddr data = addrFrom (options data) DhcpType.optionsSize 0 := rfl

section Search

variable {attrs : List UInt8} {size i : Nat}

theorem addrFrom_end (h : ¬ i + 1 < size) : addrFrom attrs size i = none := by
  rw [addrFrom, findFrom, if_neg h]

theorem addrFrom_cut (h : i + (byteAt attrs (i + 1)).toNat + 2 > size) :
    addrFrom attrs size i = none := by
  rw [addrFrom, findFrom, if_pos h, ite_self]

theorem addrFrom_found (hfit : i + (byteAt attrs (i + 1)).toNat + 2 ≤ size)
    (h : byteAt attrs i = dhcpIpaddress) :
    addrFrom attrs size i =
      if byteAt attrs (i + 1) ≠ 4 then none else some (word32At attrs (i + 2)) := by
  rw [addrFrom, findFrom, if_pos (by omega), if_neg (by omega), if_pos h]

theorem addrFrom_next (hfit : i + (byteAt attrs (i + 1)).toNat + 2 ≤ size)
    (h : byteAt attrs i ≠ dhcpIpaddress) :
    addrFrom attrs size i = addrFrom attrs size (i + (byteAt attrs (i + 1)).toNat + 2) := by
  rw [addrFrom, findFrom, if_pos (by omega), if_neg (by omega), if_neg h, addrFrom]

/-- An option with an address takes six bytes, and any other one at least two. -/
theorem addrFrom_room {ip : UInt32} (h : addrFrom attrs size i = some ip) :
    i + 6 ≤ size ∧ (byteAt attrs i ≠ dhcpIpaddress → i + 8 ≤ size) := by
  induction i using findFrom.induct attrs size dhcpIpaddress with
  | case1 i hi hcut =>
    rw [addrFrom_cut hcut] at h
    simp at h
  | case2 i hi hfit hattr =>
    rw [addrFrom_found (by omega) hattr] at h
    split at h
    · simp at h
    · rename_i hlen
      rw [not_not.mp hlen, show (4 : UInt8).toNat = 4 from rfl] at hfit
      exact ⟨by omega, fun hne => absurd hattr hne⟩
  | case3 i hi hfit hattr ih =>
    rw [addrFrom_next (by omega) hattr] at h
    have hroom := (ih h).1
    exact ⟨by omega, fun _ => by omega⟩
  | case4 i hi =>
    rw [addrFrom_end hi] at h
    simp at h

/-! ### A search that starts in the first bytes -/

section Append

variable {own rest : List UInt8}

theorem addrFrom_cut_append (hi : i + 1 < own.length)
    (h : i + (byteAt own (i + 1)).toNat + 2 > size) : addrFrom (own ++ rest) size i = none := by
  apply addrFrom_cut
  rw [byteAt_append_left _ _ _ hi]
  exact h

theorem addrFrom_found_append (hi : i + 1 < own.length)
    (hfit : i + (byteAt own (i + 1)).toNat + 2 ≤ size) (h : byteAt own i = dhcpIpaddress) :
    addrFrom (own ++ rest) size i =
      if byteAt own (i + 1) ≠ 4 then none else some (word32At (own ++ rest) (i + 2)) := by
  have h0 : byteAt (own ++ rest) i = byteAt own i := byteAt_append_left _ _ _ (by omega)
  have h1 : byteAt (own ++ rest) (i + 1) = byteAt own (i + 1) := byteAt_append_left _ _ _ hi
  rw [← h1] at hfit
  rw [addrFrom_found hfit (h0.trans h), h1]

theorem addrFrom_next_append (hi : i + 1 < own.length)
    (hfit : i + (byteAt own (i + 1)).toNat + 2 ≤ size) (h : byteAt own i ≠ dhcpIpaddress) :
    addrFrom (own ++ rest) size i =
      addrFrom (own ++ rest) size (i + (byteAt own (i + 1)).toNat + 2) := by
  have h0 : byteAt (own ++ rest) i = byteAt own i := byteAt_append_left _ _ _ (by omega)
  have h1 : byteAt (own ++ rest) (i + 1) = byteAt own (i + 1) := byteAt_append_left _ _ _ hi
  rw [← h0] at h
  rw [← h1] at hfit ⊢
  exact addrFrom_next hfit h

theorem addrFrom_append {ip : UInt32} (hsize : own.length ≤ size)
    (h : addrFrom own own.length i = some ip) : addrFrom (own ++ rest) size i = some ip := by
  induction i using findFrom.induct own own.length dhcpIpaddress with
  | case1 i hi hcut =>
    rw [addrFrom_cut hcut] at h
    simp at h
  | case2 i hi hfit hattr =>
    have hroom := (addrFrom_room h).1
    rw [addrFrom_found (by omega) hattr] at h
    rw [addrFrom_found_append hi (by omega) hattr, word32At_append_left _ _ _ (by omega), h]
  | case3 i hi hfit hattr ih =>
    rw [addrFrom_next (by omega) hattr] at h
    rw [addrFrom_next_append hi (by omega) hattr]
    exact ih h
  | case4 i hi =>
    rw [addrFrom_end hi] at h
    simp at h

end Append

end Search

/-! ## Bytes that are not the datagram's own -/

theorem options_length (data : Buffer DhcpType.size) :
    (options data.bytes).length = DhcpType.optionsSize := by
  apply slice_length
  rw [Buffer.length_bytes]
  decide

theorem options_append (a b : List UInt8) : ∃ rest, options (a ++ b) = options a ++ rest := by
  unfold options slice
  rw [List.drop_append, List.take_append]
  exact ⟨_, rfl⟩

theorem options_take (l : List UInt8) : options (l.take DhcpType.size) = options l := by
  unfold options slice
  rw [List.drop_take, List.take_take]
  rfl

theorem received_bytes {n : Nat} (s : Server n) (d : Datagram) :
    (received s d).dhcpData.bytes =
      d.payload.take DhcpType.size ++
        s.dhcpData.bytes.drop (d.payload.take DhcpType.size).length := by
  unfold received
  simp only
  rw [Buffer.bytes_write _ _ _ (by simp), List.take_zero, List.nil_append, Nat.zero_add]

theorem received_options {n : Nat} (s : Server n) (d : Datagram) :
    ∃ rest, options (received s d).dhcpData.bytes = options d.payload ++ rest ∧
      (options d.payload).length + rest.length = DhcpType.optionsSize := by
  obtain ⟨rest, hrest⟩ := options_append (d.payload.take DhcpType.size)
    (s.dhcpData.bytes.drop (d.payload.take DhcpType.size).length)
  rw [← received_bytes, options_take] at hrest
  refine ⟨rest, hrest, ?_⟩
  rw [← List.length_append, ← hrest]
  exact options_length _

end Lrndis.Dhcp
