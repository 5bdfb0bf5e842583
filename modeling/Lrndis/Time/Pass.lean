import Lrndis.Time.Walk

/-!
# What a pass calls

A pass is what happens from a call of `stmr` to its return: turns of its loop, and what the
`proc`s do in between.
-/

namespace Lrndis.Time

open Run Linked

variable {n : Nat}

def UntilReturn : Sys n → List (Input n) → Prop
  | s, [] => s.pc = .idle
  | s, i :: is => s.pc ≠ .idle ∧ UntilReturn (step s i).1 is

instance decidableUntilReturn : (s : Sys n) → (is : List (Input n)) → Decidable (UntilReturn s is)
  | s, [] => inferInstanceAs (Decidable (s.pc = .idle))
  | s, i :: is =>
    have := decidableUntilReturn (step s i).1 is
    inferInstanceAs (Decidable (s.pc ≠ .idle ∧ UntilReturn (step s i).1 is))

def Pass (s : Sys n) (is : List (Input n)) : Prop :=
  s.pc = .idle ∧ UntilReturn (step s .stmr).1 is

def Ready (time : Nat) (s : Sys n) (t : Fin n) : Prop :=
  t ∈ s.listed ∧ (s.timers.timer t).Active ∧ (s.timers.timer t).Due (UInt32.ofNat time)

instance (time : Nat) (s : Sys n) (t : Fin n) : Decidable (Ready time s t) := by
  unfold Ready; infer_instance

instance (s : Sys n) (is : List (Input n)) : Decidable (Pass s is) := by
  unfold Pass; infer_instance

/-- The proc that is called is that of a timer in the list, and active. -/
def CallsListed (s : Sys n) (i : Input n) : Prop :=
  ∀ t ∈ (step s i).2, t ∈ s.listed ∧ (s.timers.timer t).Active

instance (s : Sys n) (i : Input n) : Decidable (CallsListed s i) := by
  unfold CallsListed; infer_instance

def Tame (s : Sys n) (i : Input n) : Prop := Legal s i ∧ KeepsNext s i

theorem callsListed_of_walk {s : Sys n} {i : Input n} {done rest : List (Fin n)}
    (h : Walk s done rest) : CallsListed s i := by
  intro t ht
  obtain ⟨-, time, hpc, hactive, -⟩ := mem_step ht
  have hhead := h.tmr
  rw [hpc] at hhead
  have hmem : t ∈ rest := List.mem_of_mem_head? hhead.symm
  rw [h.listed]
  exact ⟨List.mem_append_right _ hmem, hactive⟩

theorem step_call_pc (s : Sys n) (c : Call n) : (step s (.call c)).1.pc = s.pc := by
  unfold step
  simp only
  split
  · rfl
  · exact call_pc s c

theorem step_time {s : Sys n} {time : Nat} (h : ∀ time', s.pc.time = some time' → time' = time)
    (i : Input n) (hpc : s.pc ≠ .idle) :
    ∀ time', (step s i).1.pc.time = some time' → time' = time := by
  have hcases := step_cases s i
  generalize step s i = r at hcases ⊢
  cases hcases with
  | tick us => exact h
  | stmr hidle => exact absurd hidle hpc
  | @turn time₀ tmr hloop =>
    intro time' ht
    rw [(turn_keeps s time₀ tmr).2.2.2 time' ht]
    apply h
    rw [hloop]
    rfl
  | call c hc =>
    rw [call_pc]
    exact h
  | @procReturns time₀ tmr t hproc =>
    rintro time' ⟨⟩
    apply h
    rw [hproc]
    rfl
  | ignored => exact h

theorem not_called_of_done {s : Sys n} {done rest : List (Fin n)} {t : Fin n}
    {is : List (Input n)} (h : Walk s done rest) (ht : t ∉ rest) (htame : Along step Tame s is)
    (hreturn : UntilReturn s is) : t ∉ (run step s is).2 := by
  induction is generalizing s done rest with
  | nil => exact List.not_mem_nil
  | cons i is ih =>
    obtain ⟨done', rest', hwalk, hmoves⟩ := step_walk h htame.1.1 htame.1.2
    have hlater : t ∉ rest' → t ∉ (run step (step s i).1 is).2 := fun ht' =>
      ih hwalk ht' htame.2 hreturn.2
    rw [run_cons, List.mem_append, not_or]
    cases hmoves hreturn.1 with
    | turn hpc =>
      refine ⟨?_, hlater fun hmem => ht (List.mem_cons_of_mem _ hmem)⟩
      intro hmem
      obtain ⟨-, time, hpc', -, -⟩ := mem_step hmem
      rw [hpc] at hpc'
      cases hpc'
      exact ht List.mem_cons_self
    | free hrunning hgone =>
      rw [step_silent s (by rintro ⟨⟩)]
      exact ⟨List.not_mem_nil, hlater fun hmem => ht (List.mem_of_mem_erase hmem)⟩
    | stay hout =>
      rw [hout]
      exact ⟨List.not_mem_nil, hlater ht⟩

theorem Walk.not_idle {s : Sys n} {done rest : List (Fin n)} {t : Fin n} (h : Walk s done rest)
    (ht : t ∈ rest) : s.pc ≠ .idle := by
  intro hidle
  rw [h.rest_nil hidle] at ht
  cases ht

theorem called_once {s : Sys n} {done rest : List (Fin n)} {t : Fin n} {time : Nat}
    {is : List (Input n)} (h : Walk s done rest) (ht : t ∈ rest) (htame : Along step Tame s is)
    (htime : ∀ time', s.pc.time = some time' → time' = time) (hreturn : UntilReturn s is)
    (hready : ∀ p, p <+: is → p ≠ is → t ∉ (run step s p).2 → Ready time (run step s p).1 t) :
    (run step s is).2.count t = 1 := by
  induction is generalizing s done rest with
  | nil => exact absurd hreturn (h.not_idle ht)
  | cons i is ih =>
    obtain ⟨done', rest', hwalk, hmoves⟩ := step_walk h htame.1.1 htame.1.2
    have hnow : Ready time s t :=
      hready [] List.nil_prefix (List.cons_ne_nil i is).symm List.not_mem_nil
    have hlater : t ∉ (step s i).2 → ∀ p, p <+: is → p ≠ is →
        t ∉ (run step (step s i).1 p).2 → Ready time (run step (step s i).1 p).1 t := by
      intro hfirst p hp hne hrest
      apply hready (i :: p) (List.prefix_cons_inj i |>.mpr hp)
      · intro he
        exact hne (List.cons.inj he).2
      · rw [run_cons, List.mem_append, not_or]
        exact ⟨hfirst, hrest⟩
    have hgoes : t ∉ (step s i).2 → t ∈ rest' → (run step s (i :: is)).2.count t = 1 := by
      intro hfirst hmem
      rw [run_cons, List.count_append, List.count_eq_zero_of_not_mem hfirst, Nat.zero_add]
      exact ih hwalk hmem htame.2 (step_time htime i hreturn.1) hreturn.2 (hlater hfirst)
    cases hmoves hreturn.1 with
    | @turn time' u _ hpc =>
      obtain rfl : time' = time := htime time' (by rw [hpc]; rfl)
      by_cases hu : u = t
      · subst hu
        -- it is active and due, so it is called now, and then it is behind the loop
        have hnot : u ∉ rest' :=
          (List.nodup_cons.mp (List.nodup_append.mp h.nodup).2.1).1
        have hdone := not_called_of_done hwalk hnot htame.2 hreturn.2
        rw [run_cons, (step_turn_ready hpc hnow.2.1 hnow.2.2).1, List.count_append,
          List.count_singleton_self, List.count_eq_zero_of_not_mem hdone]
      · apply hgoes
        · rw [step_turn hpc, mem_turn]
          rintro ⟨he, -, -⟩
          exact hu (Option.some.inj he)
        · exact (List.mem_cons.mp ht).resolve_left fun he => hu he.symm
    | @free u _ hrunning hgone =>
      have hfirst : t ∉ (step s (.call (.free u))).2 := by
        rw [step_silent s (by rintro ⟨⟩)]
        exact List.not_mem_nil
      by_cases hu : u = t
      · subst hu
        -- freed, it is not ready any more, while `stmr` has not returned
        cases is with
        | nil => exact absurd ((step_call_pc s (.free u)).symm.trans hreturn.2) hreturn.1
        | cons j js =>
          have hnext := hlater hfirst [] List.nil_prefix (List.cons_ne_nil j js).symm
            List.not_mem_nil
          exact absurd hnext.1 hgone
      · exact hgoes hfirst ((List.mem_erase_of_ne (Ne.symm hu)).mpr ht)
    | stay hout =>
      apply hgoes _ ht
      rw [hout]
      exact List.not_mem_nil

theorem walk_reached {timer : Fin n → Timer n} {utime : Nat} {is : List (Input n)}
    (htame : Along step Tame (Sys.boot timer utime) is) :
    ∃ done rest, Walk (run step (Sys.boot timer utime) is).1 done rest := by
  apply invariant_along (I := fun s => ∃ done rest, Walk s done rest) _
    ⟨[], [], walk_boot timer utime⟩ htame
  rintro s i ⟨done, rest, h⟩ ⟨hlegal, hnext⟩
  obtain ⟨done', rest', h', -⟩ := step_walk h hlegal hnext
  exact ⟨done', rest', h'⟩

theorem walk_stmr {s : Sys n} {done rest : List (Fin n)} (h : Walk s done rest)
    (hidle : s.pc = .idle) :
    Walk (step s .stmr).1 [] s.listed ∧ (step s .stmr).1.pc.time = some s.utime ∧
      (step s .stmr).1.timers = s.timers := by
  obtain rfl := h.rest_nil hidle
  have hlisted := h.listed
  rw [List.append_nil] at hlisted
  have hnodes := h.nodes
  have hnodup := h.nodup
  rw [List.append_nil] at hnodes hnodup
  rw [hlisted]
  unfold step
  simp only [hidle]
  refine ⟨⟨hnodes, hnodup, hnodes.head_eq, ?_⟩, rfl, trivial⟩
  rintro t ⟨⟩

/-- If no `proc` frees the timer that `stmr` looks at next, only timers in the list are
called, and each pass calls exactly once what stays in the list, active and due. -/
theorem pass_exact (timer : Fin n → Timer n) (utime : Nat) (is : List (Input n))
    (hlegal : Along step Legal (Sys.boot timer utime) is)
    (hnext : Along step KeepsNext (Sys.boot timer utime) is) :
    Along step CallsListed (Sys.boot timer utime) is ∧
      ∀ before pass, before ++ .stmr :: pass <+: is →
        let s := (run step (Sys.boot timer utime) before).1
        let s₁ := (step s .stmr).1
        Pass s pass → ∀ t,
          (∀ p, p <+: pass → p ≠ pass → t ∉ (run step s₁ p).2 →
            Ready s.utime (run step s₁ p).1 t) →
          (run step s₁ pass).2.count t = 1 := by
  have htame : Along step Tame (Sys.boot timer utime) is := along_and _ _ hlegal hnext
  constructor
  · apply along_of_invariant (I := fun s => ∃ done rest, Walk s done rest) _ _
      ⟨[], [], walk_boot timer utime⟩ htame
    · rintro s i ⟨done, rest, h⟩ ⟨hl, hn⟩
      obtain ⟨done', rest', h', -⟩ := step_walk h hl hn
      exact ⟨done', rest', h'⟩
    · rintro s i ⟨done, rest, h⟩ -
      exact callsListed_of_walk h
  · rintro before pass ⟨after, rfl⟩ s s₁ ⟨hidle, hreturn⟩ t hready
    rw [along_append, along_append, along_cons] at htame
    obtain ⟨done, rest, h⟩ := walk_reached htame.1.1
    obtain ⟨h₁, htime, -⟩ := walk_stmr h hidle
    have ht : t ∈ s.listed := by
      -- A pass has a step, as `stmr` is not idle right after its call.
      cases hp : pass with
      | nil =>
        have hback : s₁.pc = .idle := by
          rw [hp] at hreturn
          exact hreturn
        rw [hback] at htime
        cases htime
      | cons j js =>
        have hfirst := hready [] List.nil_prefix (by rw [hp]; exact (List.cons_ne_nil j js).symm)
          List.not_mem_nil
        rw [← List.nil_append s.listed, ← h₁.listed]
        exact hfirst.1
    apply called_once h₁ ht htame.1.2.2 _ hreturn hready
    intro time' ht'
    exact Option.some.inj (ht'.symm.trans htime)

def everyTen (_ : Fin 3) : Timer 3 := { period := 10, event := 0, flags := stmrActive, next := none }

theorem pass_exact_three :
    let before := [.call (.add 2), .call (.add 1), .call (.add 0), .tick 10]
    let pass := [.turn, .call (.free 2), .procReturns, .turn, .procReturns, .turn]
    let s₁ := (step (run step (Sys.boot everyTen 0) before).1 .stmr).1
    Along step CallsListed (Sys.boot everyTen 0) (before ++ .stmr :: pass) ∧
      (run step s₁ pass).2.count 1 = 1 := by
  intro before pass s₁
  have hlegal : Along step Legal (Sys.boot everyTen 0) (before ++ .stmr :: pass) := by
    decide +kernel
  have hnext : Along step KeepsNext (Sys.boot everyTen 0) (before ++ .stmr :: pass) := by
    decide +kernel
  have hready : ∀ p ∈ pass.inits, p ≠ pass → 1 ∉ (run step s₁ p).2 →
      Ready 10 (run step s₁ p).1 1 := by decide +kernel
  obtain ⟨hlisted, hexact⟩ := pass_exact everyTen 0 _ hlegal hnext
  refine ⟨hlisted, hexact before pass List.prefix_rfl (by decide +kernel) 1 ?_⟩
  intro p hp
  exact hready p ((List.mem_inits p pass).mpr hp)

/-- The `proc` of the first timer frees the next one: it is called though it is not in the
list, and the pass ends there, without the last one. -/
theorem freed_called :
    let before := [.call (.add 2), .call (.add 1), .call (.add 0), .tick 10]
    let pass := [.turn, .call (.free 1), .procReturns, .turn, .procReturns, .turn]
    let s := (run step (Sys.boot everyTen 0) before).1
    let s₁ := (step s .stmr).1
    Along step Legal (Sys.boot everyTen 0) (before ++ .stmr :: pass) ∧ Pass s pass ∧
      ¬ Along step CallsListed (Sys.boot everyTen 0) (before ++ .stmr :: pass) ∧
      (∀ p ∈ pass.inits, p ≠ pass → Ready s.utime (run step s₁ p).1 2) ∧
      (run step s₁ pass).2 = [0, 1] := by
  refine ⟨?_, ?_, ?_, ?_, ?_⟩ <;> decide +kernel

end Lrndis.Time
