import Lrndis.Lib.Buffer

/-!
# Cutting data into packets

A bulk transfer goes over the wire as packets of `n` bytes, the last one
possibly short. An empty transfer has no packet.
-/

namespace Cut

variable {α : Type}

def cut (n : Nat) (l : List α) : List (List α) :=
  (List.range ((l.length + n - 1) / n)).map fun i => (l.drop (n * i)).take n

@[simp] theorem cut_nil (n : Nat) : cut n ([] : List α) = [] := by
  rcases Nat.eq_zero_or_pos n with rfl | hn
  · simp [cut]
  · simp [cut, Nat.div_eq_of_lt (show n - 1 < n by omega)]

/-- The first packet, then the rest: the way the cut is used by induction. -/
theorem cut_of_ne_nil (n : Nat) (hn : 0 < n) (l : List α) (h : l ≠ []) :
    cut n l = l.take n :: cut n (l.drop n) := by
  have hlen : 0 < l.length := List.length_pos_of_ne_nil h
  have hcount : (l.length + n - 1) / n = ((l.drop n).length + n - 1) / n + 1 := by
    rw [List.length_drop]
    by_cases hle : n ≤ l.length
    · rw [show l.length + n - 1 = (l.length - n + n - 1) + n by omega, Nat.add_div_right _ hn]
    · rw [show l.length - n + n - 1 = n - 1 by omega, Nat.div_eq_of_lt (by omega : n - 1 < n),
        show l.length + n - 1 = (l.length - 1) + n by omega, Nat.add_div_right _ hn,
        Nat.div_eq_of_lt (by omega)]
  rw [cut, hcount, List.range_succ_eq_map, List.map_cons, List.map_map, cut]
  congr 1
  apply List.map_congr_left
  intro i _
  rw [Function.comp_apply, List.drop_drop, Nat.succ_eq_add_one, Nat.mul_add, Nat.mul_one,
    Nat.add_comm]

theorem cut_induction {P : List α → Prop} (n : Nat) (hn : 0 < n) (nil : P [])
    (cons : ∀ l, l ≠ [] → P (l.drop n) → P l) (l : List α) : P l := by
  induction hlen : l.length using Nat.strongRecOn generalizing l with
  | ind k ih =>
    by_cases h : l = []
    · exact h ▸ nil
    · have hpos : 0 < l.length := List.length_pos_of_ne_nil h
      exact cons l h (ih (l.drop n).length (by simp; omega) _ rfl)

theorem length_le_of_mem_cut (n : Nat) (l p : List α) (h : p ∈ cut n l) : p.length ≤ n := by
  simp only [cut, List.mem_map] at h
  obtain ⟨i, -, rfl⟩ := h
  exact List.length_take_le n _

theorem cut_append (n : Nat) (hn : 0 < n) (a b : List α) (h : n ∣ a.length) :
    cut n (a ++ b) = cut n a ++ cut n b := by
  induction a using cut_induction n hn with
  | nil => simp
  | cons a ha ih =>
    have hle : n ≤ a.length := Nat.le_of_dvd (List.length_pos_of_ne_nil ha) h
    rw [cut_of_ne_nil n hn a ha, cut_of_ne_nil n hn (a ++ b) (by simp [ha]),
      List.take_append_of_le_length hle, List.drop_append_of_le_length hle,
      ih (by rw [List.length_drop]; exact Nat.dvd_sub h (Nat.dvd_refl n)), List.cons_append]

end Cut
