import Mathlib.Logic.Function.Basic
import Mathlib.Data.Int.Notation

/-!
# Counted references

How often references to each object were acquired and released, and how many of them an
outside party holds. An object is in use as long as more were acquired than released.
-/

namespace RefCount

variable {α : Type}

structure Ledger (α : Type) where
  acquired : α → Nat
  released : α → Nat
  held : α → Nat

namespace Ledger

def empty : Ledger α := { acquired := fun _ => 0, released := fun _ => 0, held := fun _ => 0 }

def InUse (l : Ledger α) (x : α) : Prop := l.released x < l.acquired x

instance (l : Ledger α) (x : α) : Decidable (l.InUse x) := inferInstanceAs (Decidable (_ < _))

/-- No reference is released twice, what is held outside stays in use, and what is in use
is held. -/
structure Sound (l : Ledger α) : Prop where
  released_le : ∀ x, l.released x ≤ l.acquired x
  held_inUse : ∀ x, 0 < l.held x → l.InUse x
  inUse_held : ∀ x, l.InUse x → 0 < l.held x

/-- The references that nobody outside holds. Negative when more are held than there are. -/
def balance (l : Ledger α) (x : α) : ℤ := l.acquired x - l.released x - l.held x

@[simp] theorem balance_empty (x : α) : (empty : Ledger α).balance x = 0 := rfl

theorem sound_of_balance {l : Ledger α} (h : ∀ x, l.balance x = 0) : l.Sound := by
  have hsum : ∀ x, l.acquired x = l.released x + l.held x := by
    intro x
    have hx := h x
    unfold balance at hx
    omega
  refine ⟨?_, ?_, ?_⟩
  · intro x
    rw [hsum x]
    omega
  · intro x hx
    rw [InUse, hsum x]
    omega
  · intro x hx
    rw [InUse, hsum x] at hx
    omega

/-! ## Moving references -/

variable [DecidableEq α]

def acquire (l : Ledger α) (x : α) : Ledger α :=
  { l with acquired := Function.update l.acquired x (l.acquired x + 1) }

def release (l : Ledger α) (x : α) : Ledger α :=
  { l with released := Function.update l.released x (l.released x + 1) }

def give (l : Ledger α) (x : α) : Ledger α :=
  { l with held := Function.update l.held x (l.held x + 1) }

def take (l : Ledger α) (x : α) : Ledger α :=
  { l with held := Function.update l.held x (l.held x - 1) }

def share (l : Ledger α) (x : α) : Ledger α := (l.acquire x).give x

def drop (l : Ledger α) (x : α) : Ledger α :=
  if 0 < l.held x then (l.take x).release x else l

theorem update_cast (f : α → Nat) (x y : α) (n : Nat) :
    ((Function.update f x n y : Nat) : ℤ) = f y + if y = x then (n : ℤ) - f x else 0 := by
  rcases eq_or_ne y x with rfl | h
  · rw [Function.update_self, if_pos rfl]
    omega
  · rw [Function.update_of_ne h, if_neg h]
    omega

theorem balance_acquire (l : Ledger α) (x y : α) :
    (l.acquire x).balance y = l.balance y + if y = x then 1 else 0 := by
  simp only [balance, acquire, update_cast]
  split <;> omega

theorem balance_release (l : Ledger α) (x y : α) :
    (l.release x).balance y = l.balance y - if y = x then 1 else 0 := by
  simp only [balance, release, update_cast]
  split <;> omega

theorem balance_give (l : Ledger α) (x y : α) :
    (l.give x).balance y = l.balance y - if y = x then 1 else 0 := by
  simp only [balance, give, update_cast]
  split <;> omega

theorem balance_take (l : Ledger α) (x y : α) (h : 0 < l.held x) :
    (l.take x).balance y = l.balance y + if y = x then 1 else 0 := by
  simp only [balance, take, update_cast]
  split <;> omega

@[simp] theorem balance_share (l : Ledger α) (x y : α) : (l.share x).balance y = l.balance y := by
  rw [share, balance_give, balance_acquire]
  omega

@[simp] theorem balance_drop (l : Ledger α) (x y : α) : (l.drop x).balance y = l.balance y := by
  unfold drop
  split
  · rename_i h
    rw [balance_release, balance_take l x y h]
    omega
  · rfl

/-! ## Letting go -/

theorem held_drop (l : Ledger α) (x : α) : (l.drop x).held x = l.held x - 1 := by
  unfold drop
  split
  · exact Function.update_self ..
  · omega

theorem held_dropAll (l : Ledger α) (x : α) :
    ((List.replicate (l.held x) x).foldl drop l).held x = 0 := by
  generalize hn : l.held x = n
  induction n generalizing l with
  | zero => exact hn
  | succ n ih =>
    rw [List.replicate_succ, List.foldl_cons]
    apply ih
    rw [held_drop, hn, Nat.add_sub_cancel]

theorem balance_drops (l : Ledger α) (xs : List α) (y : α) :
    (xs.foldl drop l).balance y = l.balance y := by
  induction xs generalizing l with
  | nil => rfl
  | cons x xs ih => rw [List.foldl_cons, ih, balance_drop]

/-- A reference too few shows when the outside has let go of its own. -/
theorem sound_dropAll {l : Ledger α} {x : α}
    (h : ((List.replicate (l.held x) x).foldl drop l).Sound) : 0 ≤ l.balance x := by
  have hle := h.released_le x
  rw [← balance_drops l (List.replicate (l.held x) x) x, balance, held_dropAll]
  omega

end Ledger

end RefCount
