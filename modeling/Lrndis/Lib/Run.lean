import Mathlib.Data.List.Induction
import Mathlib.Data.List.Perm.Basic
import Mathlib.Order.Basic
import Mathlib.Order.OrderDual

/-!
# Runs of a component

A component is a function `step` from a state and an input to a state and the
outputs of that step. Nothing here knows what the states are. An input that a
state does not allow is modelled by a step that does nothing.
-/

namespace Run

variable {σ τ ι ο π ω : Type}

def run (step : σ → ι → σ × List ο) : σ → List ι → σ × List ο
  | s, [] => (s, [])
  | s, i :: is => ((run step (step s i).1 is).1, (step s i).2 ++ (run step (step s i).1 is).2)

def Along (step : σ → ι → σ × List ο) (C : σ → ι → Prop) : σ → List ι → Prop
  | _, [] => True
  | s, i :: is => C s i ∧ Along step C (step s i).1 is

def Reachable (step : σ → ι → σ × List ο) (s t : σ) : Prop := ∃ is, (run step s is).1 = t

section Laws

variable (step : σ → ι → σ × List ο) (C : σ → ι → Prop)

@[simp] theorem run_nil (s : σ) : run step s [] = (s, []) := rfl

@[simp] theorem run_cons (s : σ) (i : ι) (is : List ι) :
    run step s (i :: is) =
      ((run step (step s i).1 is).1, (step s i).2 ++ (run step (step s i).1 is).2) := rfl

theorem run_append (s : σ) (is js : List ι) :
    run step s (is ++ js) =
      ((run step (run step s is).1 js).1,
        (run step s is).2 ++ (run step (run step s is).1 js).2) := by
  induction is generalizing s with
  | nil => simp
  | cons i is ih => simp [ih]

theorem run_snoc (s : σ) (is : List ι) (i : ι) :
    run step s (is ++ [i]) =
      ((step (run step s is).1 i).1, (run step s is).2 ++ (step (run step s is).1 i).2) := by
  simp [run_append]

@[simp] theorem along_nil (s : σ) : Along step C s [] := trivial

@[simp] theorem along_cons (s : σ) (i : ι) (is : List ι) :
    Along step C s (i :: is) ↔ C s i ∧ Along step C (step s i).1 is := Iff.rfl

theorem along_append (s : σ) (is js : List ι) :
    Along step C s (is ++ js) ↔ Along step C s is ∧ Along step C (run step s is).1 js := by
  induction is generalizing s with
  | nil => simp
  | cons i is ih => simp [ih, and_assoc]

theorem along_of_forall (h : ∀ s i, C s i) (s : σ) (is : List ι) : Along step C s is := by
  induction is generalizing s with
  | nil => trivial
  | cons i is ih => exact ⟨h s i, ih _⟩

theorem along_of_mem {P : ι → Prop} {is : List ι} (h : ∀ i ∈ is, P i) (s : σ) :
    Along step (fun _ i => P i) s is := by
  induction is generalizing s with
  | nil => trivial
  | cons i is ih =>
    exact ⟨h i List.mem_cons_self, ih (fun j hj => h j (List.mem_cons_of_mem i hj)) _⟩

theorem along_and {D : σ → ι → Prop} {s : σ} {is : List ι} (hC : Along step C s is)
    (hD : Along step D s is) : Along step (fun s i => C s i ∧ D s i) s is := by
  induction is generalizing s with
  | nil => trivial
  | cons i is ih => exact ⟨⟨hC.1, hD.1⟩, ih hC.2 hD.2⟩

instance decidableAlong [∀ s i, Decidable (C s i)] :
    (s : σ) → (is : List ι) → Decidable (Along step C s is)
  | _, [] => isTrue trivial
  | s, i :: is =>
    have := decidableAlong (step s i).1 is
    inferInstanceAs (Decidable (C s i ∧ Along step C (step s i).1 is))

end Laws

/-! ## Invariants -/

section Invariants

variable {step : σ → ι → σ × List ο} {C : σ → ι → Prop} {I : σ → Prop}

/-- The induction rule: what every allowed step keeps, every run of such steps keeps. -/
theorem invariant_along (hstep : ∀ s i, I s → C s i → I (step s i).1) {s : σ} {is : List ι}
    (h0 : I s) (hC : Along step C s is) : I (run step s is).1 := by
  induction is generalizing s with
  | nil => exact h0
  | cons i is ih => exact ih (hstep s i h0 hC.1) hC.2

theorem invariant_run (hstep : ∀ s i, I s → I (step s i).1) {s : σ} (h0 : I s) (is : List ι) :
    I (run step s is).1 :=
  invariant_along (C := fun _ _ => True) (fun s i h _ => hstep s i h) h0
    (along_of_forall step _ (fun _ _ => trivial) s is)

/-- What an invariant says of each step, every step of the run meets. -/
theorem along_of_invariant {D : σ → ι → Prop} (hstep : ∀ s i, I s → C s i → I (step s i).1)
    (hD : ∀ s i, I s → C s i → D s i) {s : σ} {is : List ι} (h0 : I s)
    (hC : Along step C s is) : Along step D s is := by
  induction is generalizing s with
  | nil => trivial
  | cons i is ih => exact ⟨hD s i h0 hC.1, ih (hstep s i h0 hC.1) hC.2⟩

theorem outputs_along {P : ο → Prop} (hstep : ∀ s i, I s → C s i → I (step s i).1)
    (hout : ∀ s i, I s → C s i → ∀ o ∈ (step s i).2, P o) {s : σ} {is : List ι}
    (h0 : I s) (hC : Along step C s is) : ∀ o ∈ (run step s is).2, P o := by
  induction is generalizing s with
  | nil => simp
  | cons i is ih =>
    intro o ho
    rw [run_cons, List.mem_append] at ho
    rcases ho with ho | ho
    · exact hout s i h0 hC.1 o ho
    · exact ih (hstep s i h0 hC.1) hC.2 o ho

theorem outputs_iff_along {P : ο → Prop} (hstep : ∀ s i, I s → I (step s i).1)
    (hout : ∀ s i, I s → ((∀ o ∈ (step s i).2, P o) ↔ C s i)) {s : σ} (h0 : I s) (is : List ι) :
    (∀ o ∈ (run step s is).2, P o) ↔ Along step C s is := by
  induction is generalizing s with
  | nil => simp
  | cons i is ih =>
    rw [run_cons, along_cons, ← hout s i h0, ← ih (hstep s i h0)]
    simp only [List.mem_append, or_imp, forall_and]

/-- The induction rule for facts about the state and all outputs so far. -/
theorem history_along {J : σ → List ο → Prop}
    (hstep : ∀ s out i, J s out → C s i → J (step s i).1 (out ++ (step s i).2)) {s : σ}
    {is : List ι} (h0 : J s []) (hC : Along step C s is) :
    J (run step s is).1 (run step s is).2 := by
  induction is using List.reverseRecOn with
  | nil => exact h0
  | append_singleton is i ih =>
    rw [along_append] at hC
    rw [run_snoc]
    exact hstep _ _ i (ih hC.1) hC.2.1

theorem history_run {J : σ → List ο → Prop}
    (hstep : ∀ s out i, J s out → J (step s i).1 (out ++ (step s i).2)) {s : σ} (h0 : J s [])
    (is : List ι) : J (run step s is).1 (run step s is).2 :=
  history_along (C := fun _ _ => True) (fun s out i h _ => hstep s out i h) h0
    (along_of_forall step _ (fun _ _ => trivial) s is)

theorem reachable_invariant (hstep : ∀ s i, I s → I (step s i).1) {s t : σ} (h0 : I s)
    (h : Reachable step s t) : I t := by
  obtain ⟨is, rfl⟩ := h
  exact invariant_run hstep h0 is

end Invariants

/-! ## Observers -/

/-- What an observer makes of a run who sees each step, but takes no part in it. -/
def observe (step : σ → ι → σ × List ο) (note : τ → σ → ι → τ) : σ → τ → List ι → τ
  | _, t, [] => t
  | s, t, i :: is => observe step note (step s i).1 (note t s i) is

section Observers

variable {step : σ → ι → σ × List ο} {note : τ → σ → ι → τ} {C : σ → ι → Prop}

theorem observe_invariant {J : σ → τ → Prop}
    (hstep : ∀ s t i, J s t → J (step s i).1 (note t s i)) {s : σ} {t : τ} (h0 : J s t)
    (is : List ι) : J (run step s is).1 (observe step note s t is) := by
  induction is generalizing s t with
  | nil => exact h0
  | cons i is ih => exact ih (hstep s t i h0)

/-- Something about the state and the observer holds all along exactly if each step is one
that keeps it. `J` may say what holds in any case. -/
theorem observe_iff_along {J P : σ → τ → Prop}
    (hstep : ∀ s t i, J s t → J (step s i).1 (note t s i))
    (hiff : ∀ s t i, J s t → P s t → (P (step s i).1 (note t s i) ↔ C s i)) {s : σ} {t : τ}
    (hJ : J s t) (hP : P s t) (is : List ι) :
    (∀ p, p <+: is → P (run step s p).1 (observe step note s t p)) ↔ Along step C s is := by
  induction is generalizing s t with
  | nil =>
    refine iff_of_true ?_ trivial
    intro p hp
    rw [List.prefix_nil.mp hp]
    exact hP
  | cons i is ih =>
    rw [along_cons, ← hiff s t i hJ hP]
    constructor
    · intro h
      have hnext : P (step s i).1 (note t s i) := h [i] (List.prefix_append [i] is)
      refine ⟨hnext, (ih (hstep s t i hJ) hnext).mp ?_⟩
      intro p hp
      exact h (i :: p) (List.cons_prefix_cons.mpr ⟨rfl, hp⟩)
    · rintro ⟨hnext, hrest⟩ p hp
      rcases List.prefix_cons_iff.mp hp with rfl | ⟨q, rfl, hq⟩
      · exact hP
      · exact (ih (hstep s t i hJ) hnext).mpr hrest q hq

theorem observe_inputs (s : σ) (h is : List ι) :
    observe step (fun h _ i => h ++ [i]) s h is = h ++ is := by
  induction is generalizing s h with
  | nil => exact (List.append_nil h).symm
  | cons i is ih =>
    rw [observe, ih, List.append_assoc, List.singleton_append]

/-- A relation between the state and the inputs so far holds all along exactly if each
step is one that keeps it. -/
theorem tracks_iff_along {J : σ → List ι → Prop}
    (hstep : ∀ s h i, J s h → (J (step s i).1 (h ++ [i]) ↔ C s i)) {s : σ} (h0 : J s [])
    (is : List ι) : (∀ p, p <+: is → J (run step s p).1 p) ↔ Along step C s is := by
  have h : (∀ p, p <+: is → J (run step s p).1 (observe step (fun h _ i => h ++ [i]) s [] p)) ↔
      Along step C s is :=
    observe_iff_along (J := fun _ _ => True) (fun _ _ _ _ => trivial)
      (fun s h i _ => hstep s h i) trivial h0 is
  simpa only [observe_inputs, List.nil_append] using h

end Observers

/-! ## Quantities -/

section Quantities

variable {κ : Type} {β : Type} [PartialOrder β] {step : σ → ι → σ × List ο} {C : σ → ι → Prop}
  {q : κ → σ → β}

theorem antitone_run (hle : ∀ s i k, q k (step s i).1 ≤ q k s) (s : σ) (is : List ι) (k : κ) :
    q k (run step s is).1 ≤ q k s := by
  induction is generalizing s with
  | nil => exact le_refl _
  | cons i is ih => exact le_trans (ih _) (hle s i k)

/-- What no step lowers is below a bound all along if it is at the end. -/
theorem along_lt_of_run_lt {q : σ → β} (hle : ∀ s i, q s ≤ q (step s i).1) {b : β} {s : σ}
    {is : List ι} (h : q (run step s is).1 < b) : Along step (fun s _ => q s < b) s is := by
  induction is generalizing s with
  | nil => trivial
  | cons i is ih =>
    refine ⟨?_, ih h⟩
    apply lt_of_le_of_lt _ h
    exact antitone_run (β := OrderDual β) (q := fun (_ : Unit) s => OrderDual.toDual (q s))
      (fun s i _ => hle s i) s (i :: is) ()

/-- What no step raises, and exactly the steps outside `C` lower, is at the end where it
was at first exactly if no step was outside `C`. -/
theorem constant_iff_along (hle : ∀ s i k, q k (step s i).1 ≤ q k s)
    (hiff : ∀ s i, (∀ k, q k (step s i).1 = q k s) ↔ C s i) (s : σ) (is : List ι) :
    (∀ k, q k (run step s is).1 = q k s) ↔ Along step C s is := by
  induction is generalizing s with
  | nil => simp
  | cons i is ih =>
    rw [run_cons, along_cons, ← hiff s i, ← ih]
    constructor
    · intro h
      -- What the first step lowers, no later step can raise again.
      have hfirst : ∀ k, q k (step s i).1 = q k s := by
        intro k
        apply le_antisymm (hle s i k)
        calc q k s = q k (run step (step s i).1 is).1 := (h k).symm
          _ ≤ q k (step s i).1 := antitone_run hle _ is k
      exact ⟨hfirst, fun k => (h k).trans (hfirst k).symm⟩
    · rintro ⟨hfirst, hrest⟩ k
      exact (hrest k).trans (hfirst k)

end Quantities

/-! ## Conservation -/

def gather {κ : Type} (step : σ → ι → σ × List ο) (g : σ → ι → List κ) : σ → List ι → List κ
  | _, [] => []
  | s, i :: is => g s i ++ gather step g (step s i).1 is

theorem gather_append {κ : Type} (step : σ → ι → σ × List ο) (g : σ → ι → List κ) (s : σ)
    (is js : List ι) :
    gather step g s (is ++ js) = gather step g s is ++ gather step g (run step s is).1 js := by
  induction is generalizing s with
  | nil => rfl
  | cons i is ih => simp [gather, ih]

section Conservation

variable {κ : Type} [DecidableEq κ] {step : σ → ι → σ × List ο} {I : σ → Prop}
  {held : σ → List κ} {come lost : σ → ι → List κ} {given : List ο → List κ}

/-- If in each step what is held and what comes in is given away, held or lost, this is so
for all that comes in during a run. -/
theorem conserved (hnil : given [] = []) (hgiven : ∀ out more, given (out ++ more) = given out ++ given more)
    (hinv : ∀ s i, I s → I (step s i).1)
    (hstep : ∀ s i, I s →
      (held s ++ come s i).Perm (given (step s i).2 ++ held (step s i).1 ++ lost s i))
    {s : σ} (h0 : I s) (is : List ι) :
    (held s ++ gather step come s is).Perm
      (given (run step s is).2 ++ held (run step s is).1 ++ gather step lost s is) := by
  induction is generalizing s with
  | nil => simp [gather, hnil]
  | cons i is ih =>
    have hfirst := hstep s i h0
    have hrest := ih (hinv s i h0)
    rw [List.perm_iff_count] at hfirst hrest ⊢
    intro x
    have hx := hfirst x
    have hx' := hrest x
    simp only [gather, run_cons, hgiven, List.count_append] at hx hx' ⊢
    omega

end Conservation

/-! ## Progress -/

section Progress

variable {step : σ → ι → σ × List ο} {C : σ → ι → Prop} {I : σ → Prop} {D : σ → List ο → Prop}
  {μ : σ → Nat} {counts : ι → Bool}

/-- The rule for what must happen: each step that counts lowers the measure and the others do
not raise it, until a step does what is to be done. -/
theorem reaches (hstep : ∀ s i, I s → C s i → D (step s i).1 (step s i).2 ∨
      (I (step s i).1 ∧ μ (step s i).1 + (if counts i then 1 else 0) ≤ μ s)) {s : σ} {is : List ι}
    (h0 : I s) (hC : Along step C s is) (hn : μ s < is.countP counts) :
    ∃ pre i post, is = pre ++ i :: post ∧
      D (step (run step s pre).1 i).1 (step (run step s pre).1 i).2 := by
  induction is generalizing s with
  | nil => exact absurd hn (Nat.not_lt_zero _)
  | cons i is ih =>
    rcases hstep s i h0 hC.1 with hdone | ⟨hnext, hle⟩
    · exact ⟨[], i, is, rfl, hdone⟩
    · rw [List.countP_cons] at hn
      obtain ⟨pre, j, post, rfl, hdone⟩ := ih hnext hC.2 (by omega)
      exact ⟨i :: pre, j, post, rfl, hdone⟩

theorem exists_of_mem_run {s : σ} {is : List ι} {o : ο} (h : o ∈ (run step s is).2) :
    ∃ pre i post, is = pre ++ i :: post ∧ o ∈ (step (run step s pre).1 i).2 := by
  induction is generalizing s with
  | nil => exact absurd h List.not_mem_nil
  | cons i is ih =>
    rw [run_cons] at h
    rcases List.mem_append.mp h with hfirst | hlater
    · exact ⟨[], i, is, rfl, hfirst⟩
    · obtain ⟨pre, j, post, rfl, hstep⟩ := ih hlater
      exact ⟨i :: pre, j, post, rfl, hstep⟩

theorem mem_run_of_mem_step {s : σ} {pre post : List ι} {i : ι} {o : ο}
    (h : o ∈ (step (run step s pre).1 i).2) : o ∈ (run step s (pre ++ i :: post)).2 := by
  rw [run_append, run_cons]
  exact List.mem_append_right _ (List.mem_append_left _ h)

end Progress

/-! ## Simulation -/

section Simulation

variable {step₁ : σ → ι → σ × List ο} {step₂ : τ → ι → τ × List π}
  {R : σ → τ → Prop} {f : ο → ω} {g : π → ω}

/-- Two components in step: related states give related states and the same
observed outputs. -/
def Simulates (step₁ : σ → ι → σ × List ο) (step₂ : τ → ι → τ × List π) (R : σ → τ → Prop)
    (f : ο → ω) (g : π → ω) : Prop :=
  ∀ s t i, R s t →
    R (step₁ s i).1 (step₂ t i).1 ∧ (step₁ s i).2.map f = (step₂ t i).2.map g

theorem Simulates.run (h : Simulates step₁ step₂ R f g) {s : σ} {t : τ} (h0 : R s t)
    (is : List ι) :
    R (run step₁ s is).1 (run step₂ t is).1 ∧
      (run step₁ s is).2.map f = (run step₂ t is).2.map g := by
  induction is generalizing s t with
  | nil => exact ⟨h0, rfl⟩
  | cons i is ih =>
    obtain ⟨hR, hout⟩ := h s t i h0
    obtain ⟨hR', hout'⟩ := ih hR
    exact ⟨hR', by simp [hout, hout']⟩

end Simulation

end Run
