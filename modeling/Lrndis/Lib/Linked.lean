import Mathlib.Data.List.Induction
import Mathlib.Data.List.Nodup
import Mathlib.Logic.Function.Basic

/-!
# Singly linked lists

Each node has at most one successor, and a list is a head and the successors. Nothing here
knows what the nodes are, or where a successor is stored.
-/

namespace Linked

variable {α : Type}

/-- The nodes from `head` on are `l`, and then the list ends. -/
def Nodes (next : α → Option α) : Option α → List α → Prop
  | head, [] => head = none
  | head, a :: l => head = some a ∧ Nodes next (next a) l

/-- The first nodes from `head` on, at most `k`. -/
def follow (next : α → Option α) : Nat → Option α → List α
  | 0, _ => []
  | _, none => []
  | k + 1, some a => a :: follow next k (next a)

section Laws

variable {next next' : α → Option α} {head : Option α} {a : α} {l m : List α}

theorem Nodes.head_eq (h : Nodes next head l) : head = l.head? := by
  cases l with
  | nil => exact h
  | cons a l => exact h.1

theorem Nodes.eq_cons (h : Nodes next (some a) l) : ∃ rest, l = a :: rest := by
  cases l with
  | nil => exact absurd h (Option.some_ne_none a)
  | cons b rest =>
    obtain rfl : a = b := Option.some.inj h.1
    exact ⟨rest, rfl⟩

theorem Nodes.follow_eq (h : Nodes next head l) {k : Nat} (hk : l.length ≤ k) :
    follow next k head = l := by
  induction l generalizing head k with
  | nil =>
    rw [show head = none from h]
    cases k <;> rfl
  | cons a l ih =>
    obtain ⟨rfl, hl⟩ := h
    cases k with
    | zero => simp at hk
    | succ k =>
      rw [follow, ih hl]
      exact Nat.le_of_succ_le_succ hk

theorem Nodes.congr (h : Nodes next head l) (hsame : ∀ a ∈ l, next' a = next a) :
    Nodes next' head l := by
  induction l generalizing head with
  | nil => exact h
  | cons a l ih =>
    refine ⟨h.1, ?_⟩
    rw [hsame a List.mem_cons_self]
    apply ih h.2
    intro b hb
    exact hsame b (List.mem_cons_of_mem _ hb)

theorem Nodes.suffix (h : Nodes next head (l ++ m)) : Nodes next m.head? m := by
  induction l generalizing head with
  | nil =>
    rw [List.nil_append] at h
    rwa [← h.head_eq]
  | cons a l ih => exact ih h.2

end Laws

/-! ## Changes -/

section Changes

variable [DecidableEq α] {next : α → Option α} {head : Option α} {a t : α} {l m : List α}

theorem Nodes.update (h : Nodes next head l) (ha : a ∉ l) (b : Option α) :
    Nodes (Function.update next a b) head l := by
  apply h.congr
  intro c hc
  apply Function.update_of_ne
  rintro rfl
  exact ha hc

theorem Nodes.push (h : Nodes next head l) (ha : a ∉ l) :
    Nodes (Function.update next a head) (some a) (a :: l) := by
  refine ⟨rfl, ?_⟩
  rw [Function.update_self]
  exact h.update ha head

theorem Nodes.pop (h : Nodes next head (a :: l)) (hnodup : (a :: l).Nodup) :
    Nodes (Function.update next a none) (next a) l :=
  h.2.update (List.nodup_cons.mp hnodup).1 none

/-- `t` gets the successor of its successor `a`. -/
theorem Nodes.unlink (h : Nodes next head (l ++ t :: a :: m))
    (hnodup : (l ++ t :: a :: m).Nodup) :
    Nodes (Function.update (Function.update next t (next a)) a none) head (l ++ t :: m) := by
  induction l generalizing head with
  | nil =>
    obtain ⟨hhead, hta, hm⟩ := h
    simp only [List.nil_append, List.nodup_cons, List.mem_cons, not_or] at hnodup ⊢
    obtain ⟨⟨hne, htm⟩, ham, -⟩ := hnodup
    refine ⟨hhead, ?_⟩
    rw [Function.update_of_ne hne, Function.update_self]
    exact (hm.update htm _).update ham _
  | cons b l ih =>
    obtain ⟨hhead, hl⟩ := h
    rw [List.cons_append, List.nodup_cons] at hnodup
    have hbt : b ≠ t := by
      rintro rfl
      exact hnodup.1 (by simp)
    have hba : b ≠ a := by
      rintro rfl
      exact hnodup.1 (by simp)
    refine ⟨hhead, ?_⟩
    rw [Function.update_of_ne hba, Function.update_of_ne hbt]
    exact ih hl hnodup.2

theorem erase_inner (hnodup : (l ++ t :: a :: m).Nodup) :
    (l ++ t :: a :: m).erase a = l ++ t :: m := by
  have happend : l ++ t :: a :: m = (l ++ [t]) ++ a :: m := by simp
  rw [happend] at hnodup ⊢
  have ha : a ∉ l ++ [t] := by
    intro h
    exact (List.nodup_append.mp hnodup).2.2 a h a (by simp) rfl
  rw [List.erase_append_right _ ha, List.erase_cons_head, List.append_assoc]
  rfl

theorem head?_erase (h : l.head? ≠ some a) :
    (l.erase a).head? = l.head? := by
  cases l with
  | nil => rfl
  | cons b l =>
    rw [List.erase_cons_tail]
    · rfl
    · simpa using h

theorem erase_append_nodup (h : (l ++ m).Nodup) :
    (l ++ m).erase a = l.erase a ++ m.erase a := by
  by_cases hl : a ∈ l
  · have hm : a ∉ m := fun hm => (List.nodup_append.mp h).2.2 a hl a hm rfl
    rw [List.erase_append_left _ hl, List.erase_of_not_mem hm]
  · rw [List.erase_append_right _ hl, List.erase_of_not_mem hl]

end Changes

end Linked
