import Mathlib.Data.List.Basic

/-!
# A slot for one message

Whoever puts a message into the slot does not wait: a message that is still there is
lost. Whoever takes one leaves the slot empty.
-/

namespace Slot

variable {α : Type}

inductive Event (α : Type)
  | put (a : α)
  | take (a : α)
deriving DecidableEq

/-- What happened to a slot that was empty at first, and what is in it now. -/
inductive Log : List (Event α) → Option α → Prop
  | nil : Log [] none
  | put {log : List (Event α)} {s : Option α} (h : Log log s) (a : α) :
      Log (log ++ [.put a]) (some a)
  | take {log : List (Event α)} {a : α} (h : Log log (some a)) : Log (log ++ [.take a]) none

def puts (log : List (Event α)) : List α :=
  log.filterMap fun
    | .put a => some a
    | .take _ => none

def takes (log : List (Event α)) : List α :=
  log.filterMap fun
    | .put _ => none
    | .take a => some a

@[simp] theorem puts_append (log more : List (Event α)) :
    puts (log ++ more) = puts log ++ puts more := List.filterMap_append

@[simp] theorem takes_append (log more : List (Event α)) :
    takes (log ++ more) = takes log ++ takes more := List.filterMap_append

theorem Log.sublist {log : List (Event α)} {s : Option α} (h : Log log s) :
    List.Sublist (takes log ++ s.toList) (puts log) := by
  induction h with
  | nil => exact List.Sublist.refl _
  | put h a ih =>
    rw [takes_append, puts_append]
    have hbefore := (List.sublist_append_left _ _).trans ih
    simpa [takes, puts] using hbefore.append (List.Sublist.refl [a])
  | take h ih =>
    rw [takes_append, puts_append]
    simpa [takes, puts] using ih

theorem Log.full {log : List (Event α)} {a : α} (h : Log log (some a)) :
    ∃ before, log = before ++ [.put a] := by
  cases h with
  | put h => exact ⟨_, rfl⟩

theorem snoc_split {β : Type} {l before after : List β} {x y : β}
    (h : l ++ [x] = before ++ y :: after) :
    (after = [] ∧ l = before ∧ x = y) ∨ ∃ after', after = after' ++ [x] ∧ l = before ++ y :: after' := by
  rcases after.eq_nil_or_concat with rfl | ⟨after', z, rfl⟩
  · obtain ⟨hl, hx⟩ := List.append_inj' h rfl
    exact Or.inl ⟨rfl, hl, by simpa using hx⟩
  · rw [List.concat_eq_append, ← List.cons_append, ← List.append_assoc] at h
    obtain ⟨hl, hx⟩ := List.append_inj' h rfl
    refine Or.inr ⟨after', ?_, hl⟩
    rw [List.concat_eq_append, hx]

/-- What is taken is what was put last, with nothing in between. -/
theorem Log.take_own {log : List (Event α)} {s : Option α} (h : Log log s)
    {before after : List (Event α)} {a : α} (hlog : log = before ++ .take a :: after) :
    ∃ earlier, before = earlier ++ [.put a] := by
  induction h generalizing after with
  | nil => simp at hlog
  | put h b ih =>
    rcases snoc_split hlog with ⟨-, -, hno⟩ | ⟨after', -, hl⟩
    · simp at hno
    · exact ih hl
  | take h ih =>
    rcases snoc_split hlog with ⟨-, rfl, heq⟩ | ⟨after', -, hl⟩
    · obtain rfl := Event.take.inj heq
      exact h.full
    · exact ih hl

/-- What is put is taken next, or another one is put before it is taken, or it is still
in the slot. -/
theorem Log.put_next {log : List (Event α)} {s : Option α} (h : Log log s)
    {before after : List (Event α)} {a : α} (hlog : log = before ++ .put a :: after) :
    (after = [] ∧ s = some a) ∨ (∃ rest, after = .take a :: rest) ∨
      ∃ b rest, after = .put b :: rest := by
  induction h generalizing after with
  | nil => simp at hlog
  | put h b ih =>
    rcases snoc_split hlog with ⟨hafter, -, heq⟩ | ⟨after', rfl, hl⟩
    · exact Or.inl ⟨hafter, congrArg some (Event.put.inj heq)⟩
    · rcases ih hl with ⟨rfl, -⟩ | ⟨rest, rfl⟩ | ⟨c, rest, rfl⟩
      · exact Or.inr (Or.inr ⟨b, [], rfl⟩)
      · exact Or.inr (Or.inl ⟨rest ++ [.put b], rfl⟩)
      · exact Or.inr (Or.inr ⟨c, rest ++ [.put b], rfl⟩)
  | @take _ b h ih =>
    rcases snoc_split hlog with ⟨-, -, hno⟩ | ⟨after', rfl, hl⟩
    · simp at hno
    · rcases ih hl with ⟨rfl, heq⟩ | ⟨rest, rfl⟩ | ⟨c, rest, rfl⟩
      · obtain rfl := Option.some.inj heq
        exact Or.inr (Or.inl ⟨[], rfl⟩)
      · exact Or.inr (Or.inl ⟨rest ++ [.take b], rfl⟩)
      · exact Or.inr (Or.inr ⟨c, rest ++ [.take b], rfl⟩)

end Slot
