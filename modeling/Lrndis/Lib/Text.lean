import Mathlib.Data.List.Basic
import Mathlib.Data.List.TakeWhile

/-!
# Texts

Texts with separators. Nothing here knows what the characters are.
-/

namespace Text

variable {α : Type} [DecidableEq α] {sep : α} {text piece a b : List α}

theorem takeWhile_of_not_mem (h : sep ∉ text) : text.takeWhile (· ≠ sep) = text := by
  rw [List.takeWhile_eq_self_iff]
  intro x hx
  rw [decide_eq_true_iff]
  rintro rfl
  exact h hx

theorem takeWhile_append_cons (h : sep ∉ a) : (a ++ sep :: b).takeWhile (· ≠ sep) = a := by
  rw [List.takeWhile_append, takeWhile_of_not_mem h, if_pos rfl]
  simp

theorem takeWhile_append_sep (a b : List α) :
    (a ++ sep :: b).takeWhile (· ≠ sep) = a.takeWhile (· ≠ sep) := by
  induction a with
  | nil => simp
  | cons x a ih =>
    by_cases hx : x = sep
    · simp [hx]
    · rw [List.cons_append, List.takeWhile_cons, List.takeWhile_cons, ih]

theorem not_mem_takeWhile (l : List α) : sep ∉ l.takeWhile (· ≠ sep) := by
  intro hmem
  have hne := List.mem_takeWhile_imp hmem
  simp at hne

theorem dropWhile_append_cons (h : sep ∉ a) :
    (a ++ sep :: b).dropWhile (· ≠ sep) = sep :: b := by
  have hsplit := List.takeWhile_append_dropWhile (p := (· ≠ sep)) (l := a ++ sep :: b)
  rw [takeWhile_append_cons h] at hsplit
  exact List.append_cancel_left hsplit

theorem not_mem_of_mem_splitOn (h : piece ∈ text.splitOn sep) : sep ∉ piece := by
  induction text generalizing piece with
  | nil =>
    rw [List.splitOn_nil, List.mem_singleton] at h
    rw [h]
    exact List.not_mem_nil
  | cons x text ih =>
    rw [List.splitOn_cons_eq_if_modifyHead] at h
    split at h
    · rcases List.mem_cons.mp h with rfl | h
      · exact List.not_mem_nil
      · exact ih h
    · -- The character is not the separator, and goes to the first of the pieces.
      rename_i hx
      obtain ⟨first, rest, hpieces⟩ := List.exists_cons_of_ne_nil (List.splitOn_ne_nil sep text)
      rw [hpieces, List.modifyHead_cons] at h
      rw [hpieces] at ih
      rcases List.mem_cons.mp h with rfl | h
      · rw [List.mem_cons, not_or]
        refine ⟨?_, ih List.mem_cons_self⟩
        rintro rfl
        exact hx (beq_self_eq_true _)
      · exact ih (List.mem_cons_of_mem _ h)

end Text
