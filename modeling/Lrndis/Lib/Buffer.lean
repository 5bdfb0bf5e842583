import Mathlib.Algebra.Group.Nat.Defs
import Mathlib.Data.List.Basic
import Mathlib.Tactic.Common

/-!
# Bytes in memory

Little-endian words in byte lists, and buffers of a fixed size with the writes
of `memcpy`. The size is part of the type, so a write cannot change it. What a
write would put past the end is dropped.
-/

namespace Mem

/-! ## Words -/

def le16 (b0 b1 : UInt8) : UInt16 := UInt16.ofNat (b0.toNat + 2 ^ 8 * b1.toNat)

def le32 (b0 b1 b2 b3 : UInt8) : UInt32 :=
  UInt32.ofNat (b0.toNat + 2 ^ 8 * b1.toNat + 2 ^ 16 * b2.toNat + 2 ^ 24 * b3.toNat)

def bytes16 (v : UInt16) : List UInt8 := [UInt8.ofNat v.toNat, UInt8.ofNat (v.toNat / 2 ^ 8)]

def bytes32 (v : UInt32) : List UInt8 :=
  [UInt8.ofNat v.toNat, UInt8.ofNat (v.toNat / 2 ^ 8), UInt8.ofNat (v.toNat / 2 ^ 16),
    UInt8.ofNat (v.toNat / 2 ^ 24)]

def byteAt (l : List UInt8) (i : Nat) : UInt8 := l.getD i 0

def word16At (l : List UInt8) (i : Nat) : UInt16 := le16 (byteAt l i) (byteAt l (i + 1))

def word32At (l : List UInt8) (i : Nat) : UInt32 :=
  le32 (byteAt l i) (byteAt l (i + 1)) (byteAt l (i + 2)) (byteAt l (i + 3))

/-- Words in network order. -/
def net16At (l : List UInt8) (i : Nat) : UInt16 := le16 (byteAt l (i + 1)) (byteAt l i)

def net32At (l : List UInt8) (i : Nat) : UInt32 :=
  le32 (byteAt l (i + 3)) (byteAt l (i + 2)) (byteAt l (i + 1)) (byteAt l i)

/-- The `len` bytes from `off` on, fewer at the end of the list. -/
def slice (l : List UInt8) (off len : Nat) : List UInt8 := (l.drop off).take len

@[simp] theorem bytes16_length (v : UInt16) : (bytes16 v).length = 2 := rfl
@[simp] theorem bytes32_length (v : UInt32) : (bytes32 v).length = 4 := rfl

theorem toNat_le16 (b0 b1 : UInt8) : (le16 b0 b1).toNat = b0.toNat + 2 ^ 8 * b1.toNat := by
  have h0 := b0.toNat_lt
  have h1 := b1.toNat_lt
  rw [le16, UInt16.toNat_ofNat']
  omega

theorem toNat_le32 (b0 b1 b2 b3 : UInt8) :
    (le32 b0 b1 b2 b3).toNat =
      b0.toNat + 2 ^ 8 * b1.toNat + 2 ^ 16 * b2.toNat + 2 ^ 24 * b3.toNat := by
  have h0 := b0.toNat_lt
  have h1 := b1.toNat_lt
  have h2 := b2.toNat_lt
  have h3 := b3.toNat_lt
  rw [le32, UInt32.toNat_ofNat']
  omega

theorem word16At_bytes16 (v : UInt16) (r : List UInt8) : word16At (bytes16 v ++ r) 0 = v := by
  apply UInt16.toNat.inj
  have hv := v.toNat_lt
  simp only [word16At, byteAt, bytes16, List.cons_append, List.getD_cons_zero,
    List.getD_cons_succ, toNat_le16, UInt8.toNat_ofNat']
  omega

theorem word32At_bytes32 (v : UInt32) (r : List UInt8) : word32At (bytes32 v ++ r) 0 = v := by
  apply UInt32.toNat.inj
  have hv := v.toNat_lt
  simp only [word32At, byteAt, bytes32, List.cons_append, List.getD_cons_zero,
    List.getD_cons_succ, toNat_le32, UInt8.toNat_ofNat']
  omega

/-! ## Reading from parts of a list -/

theorem byteAt_past (l : List UInt8) (i : Nat) (h : l.length ≤ i) : byteAt l i = 0 := by
  simp [byteAt, List.getElem?_eq_none h]

theorem byteAt_append_left (a b : List UInt8) (i : Nat) (h : i < a.length) :
    byteAt (a ++ b) i = byteAt a i := by
  simp [byteAt, List.getElem?_append_left h]

theorem byteAt_append_right (a b : List UInt8) (i : Nat) (h : a.length ≤ i) :
    byteAt (a ++ b) i = byteAt b (i - a.length) := by
  simp [byteAt, List.getElem?_append_right h]

theorem byteAt_take (l : List UInt8) (n i : Nat) (h : i < n) :
    byteAt (l.take n) i = byteAt l i := by
  simp [byteAt, List.getElem?_take_of_lt h]

theorem byteAt_zeros (n i : Nat) : byteAt (List.replicate n 0) i = 0 := by
  unfold byteAt
  rw [List.getD_eq_getElem?_getD, List.getElem?_replicate]
  split <;> rfl

theorem byteAt_drop (l : List UInt8) (n i : Nat) : byteAt (l.drop n) i = byteAt l (n + i) := by
  simp [byteAt]

theorem word16At_drop (l : List UInt8) (n i : Nat) :
    word16At (l.drop n) i = word16At l (n + i) := by
  simp only [word16At, byteAt_drop, Nat.add_assoc]

theorem word32At_append_left (a b : List UInt8) (i : Nat) (h : i + 4 ≤ a.length) :
    word32At (a ++ b) i = word32At a i := by
  simp (disch := omega) only [word32At, byteAt_append_left]

theorem word32At_append_right (a b : List UInt8) (i : Nat) (h : a.length ≤ i) :
    word32At (a ++ b) i = word32At b (i - a.length) := by
  simp (disch := omega) only [word32At, byteAt_append_right]
  congr 2 <;> omega

theorem word32At_skip (v : UInt32) (r : List UInt8) (i : Nat) :
    word32At (bytes32 v ++ r) (4 + i) = word32At r i := by
  rw [word32At_append_right _ _ _ (by simp), bytes32_length, Nat.add_sub_cancel_left]

theorem word32At_take (l : List UInt8) (n i : Nat) (h : i + 4 ≤ n) :
    word32At (l.take n) i = word32At l i := by
  simp (disch := omega) only [word32At, byteAt_take]

theorem slice_length (l : List UInt8) (off len : Nat) (h : off + len ≤ l.length) :
    (slice l off len).length = len := by
  simp [slice]; omega

theorem byteAt_slice (l : List UInt8) (off len i : Nat) (h : i < len) :
    byteAt (slice l off len) i = byteAt l (off + i) := by
  rw [slice, byteAt_take _ _ _ h, byteAt_drop]

theorem slice_congr (l l' : List UInt8) (off k : Nat) (hl : off + k ≤ l.length)
    (hl' : off + k ≤ l'.length) (h : ∀ i < k, byteAt l (off + i) = byteAt l' (off + i)) :
    slice l off k = slice l' off k := by
  have hlen := slice_length l off k hl
  have hlen' := slice_length l' off k hl'
  apply List.ext_getElem (by rw [hlen, hlen'])
  intro i h1 h2
  have hi := h i (by omega)
  rw [← byteAt_slice l off k i (by omega), ← byteAt_slice l' off k i (by omega)] at hi
  simpa [byteAt, List.getElem?_eq_getElem h1, List.getElem?_eq_getElem h2] using hi

theorem drop_eq_byteAt_cons (l : List UInt8) (i : Nat) (h : i < l.length) :
    l.drop i = byteAt l i :: l.drop (i + 1) := by
  rw [List.drop_eq_getElem_cons h, byteAt, List.getD_eq_getElem?_getD,
    List.getElem?_eq_getElem h, Option.getD_some]

theorem drop_eq_slice_append (l : List UInt8) (off len : Nat) :
    l.drop off = slice l off len ++ l.drop (off + len) := by
  rw [slice, ← List.drop_drop, List.take_append_drop]

theorem slice_append_right (a b : List UInt8) (len : Nat) :
    slice (a ++ b) a.length len = b.take len := by
  simp [slice]

/-! ## An address space -/

def load (mem : Nat → UInt8) (a n : Nat) : List UInt8 := (List.range n).map fun i => mem (a + i)

@[simp] theorem load_length (mem : Nat → UInt8) (a n : Nat) : (load mem a n).length = n := by
  simp [load]

@[simp] theorem load_zero (mem : Nat → UInt8) (a : Nat) : load mem a 0 = [] := rfl

theorem load_add (mem : Nat → UInt8) (a n k : Nat) :
    load mem a (n + k) = load mem a n ++ load mem (a + n) k := by
  simp [load, List.range_add, Function.comp_def, Nat.add_assoc]

theorem take_load (mem : Nat → UInt8) (a n k : Nat) :
    (load mem a n).take k = load mem a (min k n) := by
  simp [load, ← List.map_take, List.take_range]

theorem drop_load (mem : Nat → UInt8) (a n k : Nat) :
    (load mem a n).drop k = load mem (a + min k n) (n - min k n) := by
  conv_lhs => rw [← Nat.add_sub_cancel' (Nat.min_le_right k n), load_add]
  rcases Nat.le_total k n with h | h
  · rw [Nat.min_eq_left h, List.drop_left' (by simp)]
  · rw [Nat.min_eq_right h, Nat.sub_self, load_zero, List.append_nil,
      List.drop_eq_nil_of_le (by simpa using h)]

theorem load_congr (mem mem' : Nat → UInt8) (a n : Nat) (h : load mem a n = load mem' a n)
    (b k : Nat) (hb : a ≤ b) (hk : b + k ≤ a + n) : load mem b k = load mem' b k := by
  obtain ⟨c, rfl⟩ := Nat.exists_eq_add_of_le hb
  obtain ⟨r, rfl⟩ : ∃ r, n = c + k + r := ⟨n - (c + k), by omega⟩
  rw [load_add, load_add, load_add mem' a (c + k), load_add mem' a c] at h
  exact (List.append_inj (List.append_inj h (by simp)).1 (by simp)).2

/-! ## Buffers -/

structure Buffer (n : Nat) where
  bytes : List UInt8
  length_eq : bytes.length = n
deriving DecidableEq

namespace Buffer

variable {n : Nat}

@[ext] theorem ext {b c : Buffer n} (h : b.bytes = c.bytes) : b = c := by
  cases b; cases c; simp_all

@[simp] theorem length_bytes (b : Buffer n) : b.bytes.length = n := b.length_eq

def zero (n : Nat) : Buffer n := ⟨List.replicate n 0, by simp⟩

/-- `memcpy(b + off, src, src.length)`. -/
def write (b : Buffer n) (off : Nat) (src : List UInt8) : Buffer n where
  bytes := b.bytes.take off ++ src.take (n - off) ++ b.bytes.drop (off + src.length)
  length_eq := by simp; omega

def byte (b : Buffer n) (i : Nat) : UInt8 := byteAt b.bytes i

def word32 (b : Buffer n) (i : Nat) : UInt32 := word32At b.bytes i

def setByte (b : Buffer n) (off : Nat) (v : UInt8) : Buffer n := b.write off [v]

def setWord16 (b : Buffer n) (off : Nat) (v : UInt16) : Buffer n := b.write off (bytes16 v)

def setWord32 (b : Buffer n) (off : Nat) (v : UInt32) : Buffer n := b.write off (bytes32 v)

def read (l : List UInt8) (off k : Nat) : Buffer k :=
  ⟨(List.range k).map fun i => byteAt l (off + i), by simp⟩

theorem read_congr (l l' : List UInt8) (off k : Nat)
    (h : ∀ i < k, byteAt l (off + i) = byteAt l' (off + i)) : read l off k = read l' off k := by
  ext1
  apply List.map_congr_left
  intro i hi
  exact h i (List.mem_range.mp hi)

theorem write_bytes (b : Buffer n) (off : Nat) (src : List UInt8) :
    (b.write off src).bytes =
      b.bytes.take off ++ src.take (n - off) ++ b.bytes.drop (off + src.length) := rfl

theorem bytes_write (b : Buffer n) (off : Nat) (src : List UInt8) (h : off + src.length ≤ n) :
    (b.write off src).bytes = b.bytes.take off ++ src ++ b.bytes.drop (off + src.length) := by
  rw [write_bytes, List.take_of_length_le (show src.length ≤ n - off by omega)]

theorem take_write (b : Buffer n) (off : Nat) (src : List UInt8) (h : off + src.length ≤ n) :
    (b.write off src).bytes.take (off + src.length) = b.bytes.take off ++ src := by
  have hlen : (b.bytes.take off ++ src).length = off + src.length := by simp; omega
  rw [bytes_write b off src h, ← hlen]
  exact List.take_left' rfl

theorem take_write_inside (b : Buffer n) (off k : Nat) (src l : List UInt8)
    (hl : b.bytes.take k = l) (hk : k ≤ n) (h : off + src.length ≤ k) :
    (b.write off src).bytes.take k = l.take off ++ src ++ l.drop (off + src.length) := by
  have hoff : (b.bytes.take off).length = off := by simp; omega
  have hend : (b.bytes.take off ++ src).length = off + src.length := by simp; omega
  rw [bytes_write b off src (by omega), ← hl, List.take_append, hend,
    List.take_of_length_le (by omega), List.take_take, Nat.min_eq_left (by omega),
    List.drop_take]

theorem byte_write_inside (b : Buffer n) (off i : Nat) (src : List UInt8) (hi : i < n)
    (h1 : off ≤ i) (h2 : i < off + src.length) :
    (b.write off src).byte i = byteAt src (i - off) := by
  have hlen : (b.bytes.take off).length = off := by simp; omega
  rw [byte, write_bytes, List.append_assoc, byteAt_append_right _ _ _ (by omega), hlen,
    byteAt_append_left _ _ _ (by rw [List.length_take]; omega), byteAt_take _ _ _ (by omega)]

theorem byte_write_outside (b : Buffer n) (off i : Nat) (src : List UInt8)
    (h : i < off ∨ off + src.length ≤ i) : (b.write off src).byte i = b.byte i := by
  by_cases hoff : off ≤ n
  · have hlen : (b.bytes.take off).length = off := by simp; omega
    rcases h with h | h
    · rw [byte, write_bytes, List.append_assoc, byteAt_append_left _ _ _ (by omega),
        byteAt_take _ _ _ h, byte]
    · by_cases hend : off + src.length ≤ n
      · have hlen2 : (b.bytes.take off ++ src).length = off + src.length := by simp; omega
        rw [byte, bytes_write b off src hend, byteAt_append_right _ _ _ (by omega), hlen2,
          byteAt_drop, byte]
        congr 1; omega
      · rw [byte, byte, byteAt_past _ _ (by simp; omega), byteAt_past _ _ (by simp; omega)]
  · have hb : (b.write off src).bytes = b.bytes := by
      rw [write_bytes, List.take_of_length_le (by simp; omega),
        List.drop_eq_nil_of_le (by simp; omega), show n - off = 0 by omega]
      simp
    rw [byte, hb, byte]

theorem word32_write_outside (b : Buffer n) (off i : Nat) (src : List UInt8)
    (h : i + 4 ≤ off ∨ off + src.length ≤ i) : (b.write off src).word32 i = b.word32 i := by
  have hb : ∀ k < 4, (b.write off src).byte (i + k) = b.byte (i + k) := fun k hk =>
    byte_write_outside b off (i + k) src (by omega)
  have h0 := hb 0 (by omega)
  have h1 := hb 1 (by omega)
  have h2 := hb 2 (by omega)
  have h3 := hb 3 (by omega)
  simp only [byte, Nat.add_zero] at h0 h1 h2 h3
  rw [word32, word32, word32At, word32At, h0, h1, h2, h3]

theorem word32_setWord32 (b : Buffer n) (off : Nat) (v : UInt32) (h : off + 4 ≤ n) :
    (b.setWord32 off v).word32 off = v := by
  have hlen : (b.bytes.take off).length = off := by simp; omega
  rw [word32, setWord32, bytes_write b off _ (by simpa using h), List.append_assoc,
    word32At_append_right _ _ _ (by omega), hlen, Nat.sub_self, word32At_bytes32]

theorem word32_setWord32_other (b : Buffer n) (off i : Nat) (v : UInt32)
    (h : i + 4 ≤ off ∨ off + 4 ≤ i) : (b.setWord32 off v).word32 i = b.word32 i :=
  word32_write_outside b off i _ (by simpa using h)

theorem slice_write_same (b : Buffer n) (off : Nat) (src : List UInt8)
    (h : off + src.length ≤ n) : slice (b.write off src).bytes off src.length = src := by
  have hlen : (b.bytes.take off).length = off := by simp; omega
  rw [bytes_write b off src h, List.append_assoc]
  conv_lhs => rw [slice, List.drop_left' hlen, List.take_left' rfl]

theorem slice_cleared (b : Buffer n) (off k : Nat) (src : List UInt8) (hk : off + k ≤ n)
    (h : src.length ≤ k) :
    slice ((b.write off (List.replicate k 0)).write off src).bytes off k =
      src ++ List.replicate (k - src.length) 0 := by
  have hlen : ∀ c : Buffer n, (c.bytes.take off).length = off := by
    intro c
    rw [List.length_take, length_bytes]
    omega
  have hcleared : (b.write off (List.replicate k 0)).bytes.drop (off + src.length) =
      List.replicate (k - src.length) 0 ++ b.bytes.drop (off + k) := by
    rw [bytes_write b off _ (by simpa using hk), List.append_assoc, ← List.drop_drop,
      List.drop_left' (hlen b), List.drop_append_of_le_length (by simpa using h),
      List.drop_replicate, List.length_replicate]
  rw [bytes_write _ off src (by omega), hcleared, List.append_assoc, slice,
    List.drop_left' (hlen _), ← List.append_assoc]
  apply List.take_left'
  rw [List.length_append, List.length_replicate]
  omega

theorem byte_setByte_self (b : Buffer n) (off : Nat) (v : UInt8) (h : off < n) :
    (b.setByte off v).byte off = v := by
  rw [setByte, byte_write_inside b off off [v] h (Nat.le_refl off) (Nat.lt_succ_self off),
    Nat.sub_self]
  rfl

theorem byte_setByte_ne (b : Buffer n) (off i : Nat) (v : UInt8) (h : i ≠ off) :
    (b.setByte off v).byte i = b.byte i := by
  apply byte_write_outside
  simp only [List.length_singleton]
  omega

theorem take_setByte (b : Buffer n) (off : Nat) (v : UInt8) (h : off < n) :
    (b.setByte off v).bytes.take (off + 1) = b.bytes.take off ++ [v] :=
  b.take_write off [v] h

theorem load_byte (b : Buffer n) (k : Nat) (h : k ≤ n) : load b.byte 0 k = b.bytes.take k := by
  apply List.ext_getElem
  · simp [h]
  · intro i h1 h2
    have hi : i < b.bytes.length := by
      rw [List.length_take] at h2
      omega
    simp [load, byte, byteAt, List.getElem?_eq_getElem hi]

end Buffer

end Mem
