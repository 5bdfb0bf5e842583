import Lrndis.Time.Pass

/-!
# Timers that are left alone

If each `proc` sees to its own timer only, a pass calls a timer exactly if its period is
over, by the whole clock, of which the code has the lower 32 bits.
-/

namespace Lrndis.Time

open Run

variable {n : Nat}

/-- A `proc` does something with its own timer only. -/
def Own (s : Sys n) : Input n → Prop
  | .call c => ∀ t ∈ s.pc.running, c.tmr = t
  | _ => True

instance (s : Sys n) : (i : Input n) → Decidable (Own s i)
  | .call c => inferInstanceAs (Decidable (∀ t ∈ s.pc.running, c.tmr = t))
  | .tick _ | .stmr | .turn | .procReturns => inferInstanceAs (Decidable True)

theorem active_congr {t u : Timer n} (h : t.fields = u.fields) : t.Active ↔ u.Active := by
  have hflags : t.flags = u.flags := congrArg (fun f => f.2.2) h
  unfold Timer.Active
  rw [hflags]

theorem due_congr {t u : Timer n} (h : t.fields = u.fields) (time : UInt32) :
    t.Due time ↔ u.Due time := by
  have hperiod : t.period = u.period := congrArg (fun f => f.1) h
  unfold Timer.Due
  rw [hperiod, fields_event h]

theorem keepsNext_of_own {s : Sys n} {i : Input n} {done rest : List (Fin n)}
    (h : Walk s done rest) (hown : Own s i) : KeepsNext s i := by
  unfold KeepsNext
  split
  · rename_i tmr
    intro hrunning hnext
    obtain ⟨t, ht⟩ := Option.ne_none_iff_exists'.mp hrunning
    obtain rfl : tmr = t := hown t ht
    rw [h.tmr] at hnext
    exact h.running tmr ht (List.mem_of_mem_head? hnext)
  · trivial

theorem turn_running {s : Sys n} {time : Nat} {tmr : Option (Fin n)} {t : Fin n}
    (h : (s.turn time tmr).1.pc.running = some t) : t ∈ (s.turn time tmr).2 := by
  cases tmr with
  | none => cases h
  | some u =>
    unfold Sys.turn at h ⊢
    simp only at h ⊢
    split at h
    · cases h
    split at h
    · cases h
    · rename_i hactive hdue
      rw [if_neg hactive, if_neg hdue]
      cases h
      exact List.mem_singleton_self t

theorem own_step {s : Sys n} {i : Input n} {t : Fin n} (hpc : s.pc ≠ .idle)
    (hrunning : s.pc.running ≠ some t) (hown : Own s i) :
    ((step s i).1.timers.timer t).fields = (s.timers.timer t).fields ∧
      (step s i).1.setAt t = s.setAt t ∧
      (t ∉ (step s i).2 → (step s i).1.pc.running ≠ some t) := by
  have hcases := step_cases s i
  generalize step s i = r at hcases ⊢
  cases hcases with
  | tick us => exact ⟨rfl, rfl, fun _ => hrunning⟩
  | stmr hidle => exact absurd hidle hpc
  | @turn time tmr hloop =>
    obtain ⟨htimers, -, hset, -⟩ := turn_keeps s time tmr
    rw [htimers, hset]
    exact ⟨rfl, rfl, fun hnot hr => hnot (turn_running hr)⟩
  | call c hloop =>
    obtain ⟨time, tmr, u, hproc⟩ := in_proc hpc hloop
    rw [hproc] at hrunning
    have hc : c.tmr = u := hown u (by rw [hproc]; rfl)
    have hne : t ≠ c.tmr := by
      rintro rfl
      exact hrunning (congrArg some hc.symm)
    obtain ⟨hfields, hset⟩ := call_other s c hne
    refine ⟨hfields, hset, fun _ => ?_⟩
    rw [call_pc, hproc]
    exact hrunning
  | @procReturns time tmr u hproc =>
    rw [hproc] at hrunning
    have hne : t ≠ u := fun he => hrunning (congrArg some he.symm)
    obtain ⟨hfields, hset⟩ := procReturns_other s time tmr hne
    exact ⟨hfields, hset, fun _ => (Option.some_ne_none t).symm⟩
  | ignored => exact ⟨rfl, rfl, fun _ => hrunning⟩

/-! ## A timer that is due -/

theorem stays_before {s : Sys n} {i : Input n} {done rest rest' : List (Fin n)} {t : Fin n}
    {time : Nat} (h : Walk s done rest) (ht : t ∈ rest) (hactive : (s.timers.timer t).Active)
    (hdue : (s.timers.timer t).Due (UInt32.ofNat time)) (hown : Own s i)
    (htime : ∀ time', s.pc.time = some time' → time' = time) (hmoves : Moves s i rest rest')
    (hnot : t ∉ (step s i).2) : t ∈ rest' := by
  cases hmoves with
  | @turn time' u _ hpc =>
    refine (List.mem_cons.mp ht).resolve_left ?_
    rintro rfl
    -- the loop would have called it
    apply hnot
    obtain rfl : time' = time := htime time' (by rw [hpc]; rfl)
    rw [(step_turn_ready hpc hactive hdue).1]
    exact List.mem_singleton_self t
  | @free u _ hproc hgone =>
    obtain ⟨v, hv⟩ := Option.ne_none_iff_exists'.mp hproc
    obtain rfl : u = v := hown v hv
    apply (List.mem_erase_of_ne _).mpr ht
    rintro rfl
    exact h.running t hv ht
  | stay hout => exact ht

theorem stays_ready {s : Sys n} {done rest : List (Fin n)} {t : Fin n} {time : Nat}
    {is : List (Input n)} (h : Walk s done rest) (ht : t ∈ rest)
    (hactive : (s.timers.timer t).Active) (hdue : (s.timers.timer t).Due (UInt32.ofNat time))
    (htame : Along step Tame s is) (hown : Along step Own s is)
    (htime : ∀ time', s.pc.time = some time' → time' = time) (hreturn : UntilReturn s is) :
    ∀ p, p <+: is → p ≠ is → t ∉ (run step s p).2 → Ready time (run step s p).1 t := by
  induction is generalizing s done rest with
  | nil =>
    intro p hp hne
    exact absurd (List.prefix_nil.mp hp) hne
  | cons i is ih =>
    intro p hp hne hnot
    cases p with
    | nil =>
      refine ⟨?_, hactive, hdue⟩
      rw [run_nil, h.listed]
      exact List.mem_append_right _ ht
    | cons j q =>
      obtain ⟨rfl, hq⟩ := List.cons_prefix_cons.mp hp
      rw [run_cons, List.mem_append, not_or] at hnot
      have hrunning : s.pc.running ≠ some t := fun hr => h.running t hr ht
      obtain ⟨hfields, -, -⟩ := own_step hreturn.1 hrunning hown.1
      obtain ⟨done', rest', hwalk, hmoves⟩ := step_walk h htame.1.1 htame.1.2
      have hmem := stays_before h ht hactive hdue hown.1 htime (hmoves hreturn.1) hnot.1
      apply ih hwalk hmem ((active_congr hfields).mpr hactive) ((due_congr hfields _).mpr hdue)
        htame.2 hown.2 (step_time htime j hreturn.1) hreturn.2 q hq _ hnot.2
      intro he
      exact hne (by rw [he])

theorem set_while_running {s : Sys n} {t : Fin n} {time : Nat} {is : List (Input n)}
    (h : s.pc.running = some t ∨ ∃ set, s.setAt t = some set ∧ time ≤ set)
    (hnow : time ≤ s.utime) (hown : Along step Own s is) (hreturn : UntilReturn s is) :
    ∃ set, (run step s is).1.setAt t = some set ∧ time ≤ set := by
  -- A pass goes from the first case of `h` to the second, and stays there.
  induction is generalizing s with
  | nil =>
    apply h.resolve_left
    rw [show s.pc = .idle from hreturn]
    exact (Option.some_ne_none t).symm
  | cons i is ih =>
    apply ih _ (hnow.trans (utime_le_step s i)) hown.2 hreturn.2
    have hpc := hreturn.1
    have hfirst := hown.1
    have hcases := step_cases s i
    generalize step s i = r at hcases ⊢
    cases hcases with
    | tick us => exact h
    | stmr hidle => exact absurd hidle hpc
    | @turn time₀ tmr hloop =>
      rw [(turn_keeps s time₀ tmr).2.2.1]
      apply Or.inr
      apply h.resolve_left
      rw [hloop]
      exact (Option.some_ne_none t).symm
    | call c hloop =>
      rw [call_pc]
      by_cases hc : t = c.tmr
      · left
        obtain ⟨time₀, tmr, u, hproc⟩ := in_proc hpc hloop
        have hu : c.tmr = u := hfirst u (by rw [hproc]; rfl)
        rw [hc, hu, hproc]
        rfl
      · rw [(call_other s c hc).2]
        exact h
    | @procReturns time₀ tmr u hproc =>
      right
      by_cases hu : t = u
      · subst hu
        exact ⟨s.utime, (procReturns_event s time₀ tmr t).2, hnow⟩
      · rw [(procReturns_other s time₀ tmr hu).2]
        apply h.resolve_left
        rw [hproc]
        exact fun he => hu (Option.some.inj he).symm
    | ignored => exact h

theorem set_again {s : Sys n} {t : Fin n} {time : Nat} {is : List (Input n)}
    (hcalled : t ∈ (run step s is).2) (hnow : time ≤ s.utime) (hown : Along step Own s is)
    (hreturn : UntilReturn s is) :
    ∃ set, (run step s is).1.setAt t = some set ∧ time ≤ set := by
  induction is generalizing s with
  | nil => cases hcalled
  | cons i is ih =>
    have hlater := hnow.trans (utime_le_step s i)
    rw [run_cons, List.mem_append] at hcalled
    rcases hcalled with hfirst | hrest
    · apply set_while_running _ hlater hown.2 hreturn.2
      left
      obtain ⟨rfl, time₀, hpc, hactive, hdue⟩ := mem_step hfirst
      obtain ⟨-, tmr, hproc⟩ := step_turn_ready hpc hactive hdue
      rw [hproc]
      rfl
    · exact ih hrest hlater hown.2 hreturn.2

/-! ## A timer that is not due -/

theorem left_alone {s : Sys n} {t : Fin n} {time : Nat} {is : List (Input n)}
    (hrunning : s.pc.running ≠ some t) (hdue : ¬ (s.timers.timer t).Due (UInt32.ofNat time))
    (htime : ∀ time', s.pc.time = some time' → time' = time) (hown : Along step Own s is)
    (hreturn : UntilReturn s is) :
    t ∉ (run step s is).2 ∧
      ((run step s is).1.timers.timer t).fields = (s.timers.timer t).fields ∧
      (run step s is).1.setAt t = s.setAt t := by
  induction is generalizing s with
  | nil => exact ⟨List.not_mem_nil, rfl, rfl⟩
  | cons i is ih =>
    obtain ⟨hfields, hset, hkept⟩ := own_step hreturn.1 hrunning hown.1
    have hnot : t ∉ (step s i).2 := by
      intro hmem
      obtain ⟨-, time₀, hpc, -, hd⟩ := mem_step hmem
      rw [htime time₀ (by rw [hpc]; rfl)] at hd
      exact hdue hd
    obtain ⟨hrest, hfields', hset'⟩ := ih (hkept hnot) (fun hd => hdue ((due_congr hfields _).mp hd))
      (step_time htime i hreturn.1) hown.2 hreturn.2
    rw [run_cons, List.mem_append, not_or]
    exact ⟨⟨hnot, hrest⟩, hfields'.trans hfields, hset'.trans hset⟩

/-! ## A pass -/

theorem tame_of_own {timer : Fin n → Timer n} {utime : Nat} {is : List (Input n)}
    (hlegal : Along step Legal (Sys.boot timer utime) is)
    (hown : Along step Own (Sys.boot timer utime) is) :
    Along step Tame (Sys.boot timer utime) is := by
  apply along_of_invariant (I := fun s => ∃ done rest, Walk s done rest) _ _
    ⟨[], [], walk_boot timer utime⟩ (along_and _ _ hlegal hown)
  · rintro s i ⟨done, rest, h⟩ ⟨hl, ho⟩
    obtain ⟨done', rest', h', -⟩ := step_walk h hl (keepsNext_of_own h ho)
    exact ⟨done', rest', h'⟩
  · rintro s i ⟨done, rest, h⟩ ⟨hl, ho⟩
    exact ⟨hl, keepsNext_of_own h ho⟩

/-- A pass calls a timer in the list that is active exactly if the time since its `event`
was set is at least its period, and then sets `event` again; else it leaves the timer as
it is. -/
theorem called_iff_elapsed (timer : Fin n → Timer n) (utime : Nat)
    (before pass : List (Input n))
    (hlegal : Along step Legal (Sys.boot timer utime) (before ++ .stmr :: pass))
    (hown : Along step Own (Sys.boot timer utime) (before ++ .stmr :: pass)) :
    let s := (run step (Sys.boot timer utime) before).1
    let after := run step (step s .stmr).1 pass
    Pass s pass → ∀ t set, t ∈ s.listed → (s.timers.timer t).Active → s.setAt t = some set →
      s.utime - set < 2 ^ 32 →
      if (s.timers.timer t).period.toNat ≤ s.utime - set then
        after.2.count t = 1 ∧ ∃ again, after.1.setAt t = some again ∧ s.utime ≤ again
      else
        after.2.count t = 0 ∧ after.1.setAt t = some set ∧
          (after.1.timers.timer t).fields = (s.timers.timer t).fields := by
  rintro s after ⟨hidle, hreturn⟩ t set ht hactive hset hspan
  have htame := tame_of_own hlegal hown
  rw [along_append, along_cons] at htame hown
  have hstamped : Stamped utime s :=
    invariant_run step_stamped (stamped_boot timer utime) before
  obtain ⟨hevent, -, hle⟩ := hstamped.event t set hset
  obtain ⟨done, rest, h⟩ := walk_reached htame.1
  obtain ⟨h₁, htime₁, htimers⟩ := walk_stmr h hidle
  have htime : ∀ time', (step s .stmr).1.pc.time = some time' → time' = s.utime :=
    fun time' ht' => Option.some.inj (ht'.symm.trans htime₁)
  have hnow : s.utime ≤ (step s .stmr).1.utime := utime_le_step s .stmr
  have hset₁ : (step s .stmr).1.setAt = s.setAt := by
    unfold step
    simp only [hidle]
  -- Below 2^32 us the wrapping difference is the elapsed time.
  have hdue := due_iff hevent hle hspan
  split
  · rename_i hperiod
    have hcount := called_once h₁ ht htame.2.2 htime hreturn
      (stays_ready h₁ ht (by rwa [htimers]) (by rw [htimers]; exact hdue.mpr hperiod) htame.2.2
        hown.2.2 htime hreturn)
    refine ⟨hcount, set_again ?_ hnow hown.2.2 hreturn⟩
    apply List.count_pos_iff.mp
    rw [hcount]
    exact Nat.one_pos
  · rename_i hperiod
    have hrunning : (step s .stmr).1.pc.running ≠ some t := fun hr => h₁.running t hr ht
    obtain ⟨hnot, hfields, hkept⟩ := left_alone hrunning
      (by rw [htimers]; exact fun hd => hperiod (hdue.mp hd)) htime hown.2.2 hreturn
    rw [htimers] at hfields
    rw [hset₁] at hkept
    exact ⟨List.count_eq_zero_of_not_mem hnot, hkept.trans hset, hfields⟩

/-- The clock passes 2^32 between `stmr_run` and the pass, 10 us later. -/
theorem called_after_wrap :
    let s := (run step (Sys.boot everyTen (2 ^ 32 - 5))
      [.call (.add 0), .call (.run 0), .tick 10]).1
    let after := run step (step s .stmr).1 [.turn, .tick 3, .procReturns, .turn]
    after.2.count 0 = 1 ∧ ∃ again, after.1.setAt 0 = some again ∧ s.utime ≤ again := by
  have h := called_iff_elapsed everyTen (2 ^ 32 - 5) [.call (.add 0), .call (.run 0), .tick 10]
    [.turn, .tick 3, .procReturns, .turn] (by decide +kernel) (by decide +kernel)
    (by decide +kernel) 0 (2 ^ 32 - 5) (by decide +kernel) (by decide +kernel)
    (by decide +kernel) (by decide +kernel)
  rwa [if_pos (by decide +kernel)] at h

end Lrndis.Time
