import Mathlib.Logic.Function.Basic
import Lrndis.Lib.Buffer

/-!
# Strings in memory

Bytes up to a NUL, as C has them. A NUL that is put into a string makes two of it.
-/

namespace CString

open Mem

/-- At `p` there is `text`, and then a NUL. -/
def At (mem : Nat → UInt8) : Nat → List UInt8 → Prop
  | p, [] => mem p = 0
  | p, b :: text => mem p = b ∧ b ≠ 0 ∧ At mem (p + 1) text

/-! ## Laws -/

section Laws

variable {mem mem' : Nat → UInt8} {p : Nat} {text a b : List UInt8} {c : UInt8}

theorem At.congr (h : At mem p text)
    (hsame : ∀ i, p ≤ i → i ≤ p + text.length → mem' i = mem i) : At mem' p text := by
  induction text generalizing p with
  | nil =>
    have hp : mem' p = mem p := hsame p (Nat.le_refl p) (Nat.le_refl p)
    exact hp.trans h
  | cons x text ih =>
    obtain ⟨hx, hne, htext⟩ := h
    refine ⟨?_, hne, ih htext ?_⟩
    · rw [hsame p (Nat.le_refl p) (Nat.le_add_right ..), hx]
    · intro i hlow hhigh
      apply hsame i (by omega)
      rw [List.length_cons]
      omega

theorem At.unique (h : At mem p a) (h' : At mem p b) : a = b := by
  induction a generalizing p b with
  | nil =>
    cases b with
    | nil => rfl
    | cons y b =>
      obtain ⟨hy, hne, -⟩ := h'
      exact absurd (hy.symm.trans h) hne
  | cons x a ih =>
    obtain ⟨hx, hne, ha⟩ := h
    cases b with
    | nil => exact absurd (hx.symm.trans h') hne
    | cons y b =>
      obtain ⟨hy, -, hb⟩ := h'
      rw [hx.symm.trans hy, ih ha hb]

theorem At.byte (h : At mem p (a ++ c :: b)) : mem (p + a.length) = c ∧ c ≠ 0 := by
  induction a generalizing p with
  | nil => exact ⟨h.1, h.2.1⟩
  | cons x a ih =>
    rw [List.length_cons, Nat.add_comm a.length 1, ← Nat.add_assoc]
    exact ih h.2.2

/-- A NUL in the place of `c` ends one string, and the next one begins behind it. -/
theorem At.cut (h : At mem p (a ++ c :: b)) :
    At (Function.update mem (p + a.length) 0) p a ∧
      At (Function.update mem (p + a.length) 0) (p + a.length + 1) b := by
  induction a generalizing p with
  | nil =>
    refine ⟨Function.update_self .., h.2.2.congr ?_⟩
    intro i hlow _
    exact Function.update_of_ne (by simp only [List.length_nil]; omega) ..
  | cons x a ih =>
    obtain ⟨hx, hne, hrest⟩ := h
    obtain ⟨ha, hb⟩ := ih hrest
    have hplace : p + (x :: a).length = p + 1 + a.length := by
      rw [List.length_cons]
      omega
    rw [hplace]
    refine ⟨⟨?_, hne, ha⟩, hb⟩
    rw [Function.update_of_ne (by omega)]
    exact hx

theorem at_takeWhile (l : List UInt8) (hmem : ∀ i, mem (p + i) = byteAt l i) :
    At mem p (l.takeWhile (· ≠ 0)) := by
  induction l generalizing p with
  | nil => exact hmem 0
  | cons x l ih =>
    have hx : mem p = x := hmem 0
    rw [List.takeWhile_cons]
    split
    · rename_i hne
      refine ⟨hx, by simpa using hne, ih ?_⟩
      intro i
      rw [Nat.add_assoc, Nat.add_comm 1 i]
      exact hmem (i + 1)
    · rename_i hzero
      rw [At, hx]
      simpa using hzero

end Laws

/-! ## Buffers -/

section Buffers

variable {n : Nat}

def read (m : Buffer n) (p : Nat) : List UInt8 := (m.bytes.drop p).takeWhile (· ≠ 0)

def strchr (m : Buffer n) (c : UInt8) (p : Nat) : Option Nat :=
  if p < n then
    if m.byte p = c then some p
    else if m.byte p = 0 then none
    else strchr m c (p + 1)
  else none
termination_by n - p

variable {m : Buffer n} {p : Nat} {text a b : List UInt8} {c : UInt8}

theorem at_read (m : Buffer n) (p : Nat) : At m.byte p (read m p) := by
  apply at_takeWhile
  intro i
  exact (byteAt_drop m.bytes p i).symm

theorem At.read_eq (h : At m.byte p text) : read m p = text := (at_read m p).unique h

theorem lt_of_byte_ne {q : Nat} (h : m.byte q ≠ 0) : q < n := by
  by_contra hpast
  apply h
  exact byteAt_past _ _ (by rw [Buffer.length_bytes]; omega)

theorem byte_setByte (m : Buffer n) (q : Nat) (v : UInt8) (h : q < n) :
    (m.setByte q v).byte = Function.update m.byte q v := by
  funext i
  rcases eq_or_ne i q with rfl | hne
  · rw [Function.update_self, Buffer.byte_setByte_self m i v h]
  · rw [Function.update_of_ne hne, Buffer.byte_setByte_ne m q i v hne]

theorem At.strchr_none (h : At m.byte p text) (hc : c ≠ 0) (hnot : c ∉ text) :
    strchr m c p = none := by
  induction text generalizing p with
  | nil =>
    have hzero : m.byte p = 0 := h
    rw [strchr, hzero, if_neg hc.symm, if_pos rfl]
    split <;> rfl
  | cons x text ih =>
    obtain ⟨hx, hne, htext⟩ := h
    rw [List.mem_cons, not_or] at hnot
    rw [strchr, if_pos (lt_of_byte_ne (hx ▸ hne)), hx, if_neg (Ne.symm hnot.1), if_neg hne]
    exact ih htext hnot.2

theorem At.strchr_some (h : At m.byte p (a ++ c :: b)) (hnot : c ∉ a) :
    strchr m c p = some (p + a.length) := by
  induction a generalizing p with
  | nil =>
    obtain ⟨hc, hne, -⟩ := h
    rw [strchr, if_pos (lt_of_byte_ne (hc ▸ hne)), if_pos hc]
    rfl
  | cons x a ih =>
    obtain ⟨hx, hne, hrest⟩ := h
    rw [List.mem_cons, not_or] at hnot
    rw [strchr, if_pos (lt_of_byte_ne (hx ▸ hne)), hx, if_neg (Ne.symm hnot.1), if_neg hne,
      ih hrest hnot.2, List.length_cons, Nat.add_right_comm, Nat.add_assoc]

theorem At.cut_setByte (h : At m.byte p (a ++ c :: b)) :
    At (m.setByte (p + a.length) 0).byte p a ∧
      At (m.setByte (p + a.length) 0).byte (p + a.length + 1) b := by
  obtain ⟨hc, hne⟩ := h.byte
  rw [byte_setByte _ _ _ (lt_of_byte_ne (hc ▸ hne))]
  exact h.cut

end Buffers

end CString
