import Mathlib.Order.Basic

/-!
# Loops with a guard

`while (guard) body`, with a bound on the rounds. A loop that would go round once more has
no result.
-/

namespace While

variable {σ : Type}

def loop (guard : σ → Prop) [DecidablePred guard] (body : σ → σ) : Nat → σ → Option σ
  | 0, s => if guard s then none else some s
  | n + 1, s => if guard s then loop guard body n (body s) else some s

section Laws

variable {guard : σ → Prop} [DecidablePred guard] {body : σ → σ}

theorem loop_of_not_guard {s : σ} (h : ¬guard s) (n : Nat) : loop guard body n s = some s := by
  cases n <;> exact if_neg h

theorem loop_succ {s : σ} (h : guard s) (n : Nat) :
    loop guard body (n + 1) s = loop guard body n (body s) := if_pos h

/-- The rule of a loop: what every round keeps while the measure falls holds at the end,
and the measure is bound enough. -/
theorem loop_total {I : σ → Prop} (μ : σ → Nat)
    (hbody : ∀ s, I s → guard s → I (body s) ∧ μ (body s) < μ s) {s : σ} (h : I s) {n : Nat}
    (hn : μ s ≤ n) : ∃ t, loop guard body n s = some t ∧ I t ∧ ¬guard t := by
  induction n generalizing s with
  | zero =>
    have hg : ¬guard s := by
      intro hg
      have hlt := (hbody s h hg).2
      omega
    exact ⟨s, loop_of_not_guard hg 0, h, hg⟩
  | succ n ih =>
    by_cases hg : guard s
    · obtain ⟨hI, hlt⟩ := hbody s h hg
      rw [loop_succ hg]
      exact ih hI (by omega)
    · exact ⟨s, loop_of_not_guard hg _, h, hg⟩

theorem loop_invariant {I : σ → Prop} (hbody : ∀ s, I s → guard s → I (body s)) {s t : σ} (h : I s)
    {n : Nat} (hloop : loop guard body n s = some t) : I t ∧ ¬guard t := by
  induction n generalizing s with
  | zero =>
    by_cases hg : guard s
    · rw [loop, if_pos hg] at hloop
      contradiction
    · rw [loop_of_not_guard hg] at hloop
      obtain rfl := Option.some.inj hloop
      exact ⟨h, hg⟩
  | succ n ih =>
    by_cases hg : guard s
    · rw [loop_succ hg] at hloop
      exact ih (hbody s h hg) hloop
    · rw [loop_of_not_guard hg] at hloop
      obtain rfl := Option.some.inj hloop
      exact ⟨h, hg⟩

end Laws

end While
