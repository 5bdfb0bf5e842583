import Mathlib.Algebra.Group.Nat.Defs
import Mathlib.Order.Nat
import Lrndis.Time.Code
import Lrndis.Lib.Run

/-!
# The timers and the clock

`event` is the lower half of a clock reading, and so is `time` in `stmr`. Their difference
is the time between the two readings as long as the second one is the later one, and less
than 2^32 us later.
-/

namespace Lrndis.Time

open Run

variable {n : Nat}

/-- What an input does: an input that has no place where `stmr` is does nothing. -/
inductive Steps (s : Sys n) : Input n → Sys n × List (Fin n) → Prop
  | tick (us : Nat) : Steps s (.tick us) ({ s with utime := s.utime + us }, [])
  | stmr (hpc : s.pc = .idle) : Steps s .stmr ({ s with pc := .loop s.utime s.timers.stmrs }, [])
  | turn {time : Nat} {tmr : Option (Fin n)} (hpc : s.pc = .loop time tmr) :
    Steps s .turn (s.turn time tmr)
  | call (c : Call n) (hpc : ∀ time tmr, s.pc ≠ .loop time tmr) : Steps s (.call c) (s.call c, [])
  | procReturns {time : Nat} {tmr : Option (Fin n)} {t : Fin n} (hpc : s.pc = .proc time tmr t) :
    Steps s .procReturns (s.procReturns time tmr t, [])
  | ignored (i : Input n) : Steps s i (s, [])

theorem step_cases (s : Sys n) (i : Input n) : Steps s i (step s i) := by
  cases i with
  | tick us => exact .tick us
  | stmr =>
    unfold step
    simp only
    split
    · rename_i hpc
      exact .stmr hpc
    · exact .ignored _
  | turn =>
    unfold step
    simp only
    split
    · rename_i hpc
      exact .turn hpc
    · exact .ignored _
  | call c =>
    unfold step
    simp only
    split
    · exact .ignored _
    · rename_i hpc
      exact .call c hpc
  | procReturns =>
    unfold step
    simp only
    split
    · rename_i hpc
      exact .procReturns hpc
    · exact .ignored _

theorem in_proc {s : Sys n} (hidle : s.pc ≠ .idle) (hloop : ∀ time tmr, s.pc ≠ .loop time tmr) :
    ∃ time tmr t, s.pc = .proc time tmr t := by
  cases hpc : s.pc with
  | idle => exact absurd hpc hidle
  | loop time tmr => exact absurd hpc (hloop time tmr)
  | proc time tmr t => exact ⟨time, tmr, t, rfl⟩

/-! ## What the calls change -/

def Timer.fields (t : Timer n) : UInt32 × UInt32 × UInt32 := (t.period, t.event, t.flags)

@[simp] theorem set_timer_self (s : Timers n) (tmr : Fin n) (t : Timer n) :
    (s.set tmr t).timer tmr = t := Function.update_self ..

theorem set_timer_of_ne (s : Timers n) {tmr u : Fin n} (t : Timer n) (h : u ≠ tmr) :
    (s.set tmr t).timer u = s.timer u := Function.update_of_ne h ..

@[simp] theorem setNext_fields (s : Timers n) (tmr u : Fin n) (next : Option (Fin n)) :
    ((s.setNext tmr next).timer u).fields = (s.timer u).fields := by
  unfold Timers.setNext
  by_cases h : u = tmr
  · rw [h, set_timer_self]
    rfl
  · rw [set_timer_of_ne s _ h]

theorem stmrFreeLoop_fields (s : Timers n) (tmr u : Fin n) (k : Nat) (t : Fin n) :
    ((stmrFreeLoop s tmr k t).timer u).fields = (s.timer u).fields := by
  induction k generalizing t with
  | zero => rfl
  | succ k ih =>
    unfold stmrFreeLoop
    split
    · rfl
    split
    · simp
    · exact ih _

theorem stmrFree_fields (s : Timers n) (tmr u : Fin n) :
    ((stmrFree s tmr).timer u).fields = (s.timer u).fields := by
  unfold stmrFree
  split
  · rfl
  split
  · exact setNext_fields s tmr u none
  · exact stmrFreeLoop_fields s tmr u n _

def Call.tmr : Call n → Fin n
  | init tmr | add tmr | free tmr | stop tmr | run tmr | period tmr _ => tmr

theorem call_other (s : Sys n) (c : Call n) {t : Fin n} (h : t ≠ c.tmr) :
    ((s.call c).timers.timer t).fields = (s.timers.timer t).fields ∧
      (s.call c).setAt t = s.setAt t := by
  cases c with
  | init tmr =>
    refine ⟨?_, Function.update_of_ne h ..⟩
    exact congrArg Timer.fields (set_timer_of_ne s.timers _ h)
  | add tmr => exact ⟨setNext_fields s.timers tmr t s.timers.stmrs, rfl⟩
  | free tmr => exact ⟨stmrFree_fields s.timers tmr t, rfl⟩
  | stop tmr => exact ⟨congrArg Timer.fields (set_timer_of_ne s.timers _ h), rfl⟩
  | run tmr =>
    refine ⟨?_, Function.update_of_ne h ..⟩
    exact congrArg Timer.fields (set_timer_of_ne s.timers _ h)
  | period tmr us => exact ⟨congrArg Timer.fields (set_timer_of_ne s.timers _ h), rfl⟩

@[simp] theorem call_utime (s : Sys n) (c : Call n) : (s.call c).utime = s.utime := by
  cases c <;> rfl

@[simp] theorem call_pc (s : Sys n) (c : Call n) : (s.call c).pc = s.pc := by
  cases c <;> rfl

/-! ## The clock readings -/

def Pc.time : Pc n → Option Nat
  | idle => none
  | loop time _ => some time
  | proc time _ _ => some time

/-- The readings that are kept are not from before the start, nor from the future. -/
structure Stamped (start : Nat) (s : Sys n) : Prop where
  now : start ≤ s.utime
  time : ∀ time, s.pc.time = some time → start ≤ time ∧ time ≤ s.utime
  event : ∀ t set, s.setAt t = some set →
    (s.timers.timer t).event = UInt32.ofNat set ∧ start ≤ set ∧ set ≤ s.utime

theorem stamped_boot (timer : Fin n → Timer n) (utime : Nat) :
    Stamped utime (Sys.boot timer utime) where
  now := le_refl _
  time := by
    rintro time ⟨⟩
  event := by
    rintro t set ⟨⟩

theorem fields_event {t u : Timer n} (h : t.fields = u.fields) : t.event = u.event :=
  congrArg (fun f => f.2.1) h

theorem call_stamped {start : Nat} {s : Sys n} (h : Stamped start s) (c : Call n) :
    Stamped start (s.call c) where
  now := by
    rw [call_utime]
    exact h.now
  time := by
    rw [call_pc, call_utime]
    exact h.time
  event := by
    intro t set hset
    rw [call_utime]
    by_cases ht : t = c.tmr
    · subst ht
      cases c with
      | init tmr =>
        simp [Sys.call, Call.tmr] at hset
      | add tmr =>
        obtain ⟨hevent, hbounds⟩ := h.event tmr set hset
        exact ⟨(fields_event (setNext_fields s.timers tmr tmr s.timers.stmrs)).trans hevent, hbounds⟩
      | free tmr =>
        obtain ⟨hevent, hbounds⟩ := h.event tmr set hset
        exact ⟨(fields_event (stmrFree_fields s.timers tmr tmr)).trans hevent, hbounds⟩
      | stop tmr =>
        simp only [Sys.call, Call.tmr, stmrStop, set_timer_self]
        exact h.event _ _ hset
      | run tmr =>
        simp only [Sys.call, Call.tmr, Function.update_self, Option.some.injEq] at hset
        subst hset
        simp only [Sys.call, Call.tmr, stmrRun, set_timer_self]
        exact ⟨trivial, h.now, le_refl _⟩
      | period tmr us =>
        simp only [Sys.call, Call.tmr, set_timer_self]
        exact h.event _ _ hset
    · obtain ⟨hfields, hkept⟩ := call_other s c ht
      rw [fields_event hfields]
      rw [hkept] at hset
      exact h.event t set hset

theorem turn_keeps (s : Sys n) (time : Nat) (tmr : Option (Fin n)) :
    (s.turn time tmr).1.timers = s.timers ∧ (s.turn time tmr).1.utime = s.utime ∧
      (s.turn time tmr).1.setAt = s.setAt ∧
      ∀ time', (s.turn time tmr).1.pc.time = some time' → time' = time := by
  cases tmr with
  | none =>
    refine ⟨rfl, rfl, rfl, ?_⟩
    rintro time' ⟨⟩
  | some t =>
    unfold Sys.turn
    simp only
    split
    · refine ⟨rfl, rfl, rfl, ?_⟩
      rintro time' ⟨⟩
      rfl
    split
    · refine ⟨rfl, rfl, rfl, ?_⟩
      rintro time' ⟨⟩
      rfl
    · refine ⟨rfl, rfl, rfl, ?_⟩
      rintro time' ⟨⟩
      rfl

theorem procReturns_event (s : Sys n) (time : Nat) (tmr : Option (Fin n)) (t : Fin n) :
    ((s.procReturns time tmr t).timers.timer t).event = UInt32.ofNat s.utime ∧
      (s.procReturns time tmr t).setAt t = some s.utime := by
  unfold Sys.procReturns
  simp

theorem procReturns_other (s : Sys n) (time : Nat) (tmr : Option (Fin n)) {t u : Fin n}
    (h : u ≠ t) :
    ((s.procReturns time tmr t).timers.timer u).fields = (s.timers.timer u).fields ∧
      (s.procReturns time tmr t).setAt u = s.setAt u :=
  ⟨congrArg Timer.fields (set_timer_of_ne s.timers _ h), Function.update_of_ne h ..⟩

theorem step_stamped {start : Nat} (s : Sys n) (i : Input n) (h : Stamped start s) :
    Stamped start (step s i).1 := by
  have hcases := step_cases s i
  generalize step s i = r at hcases ⊢
  cases hcases with
  | tick us =>
    have hle : s.utime ≤ s.utime + us := Nat.le_add_right ..
    refine ⟨h.now.trans hle, ?_, ?_⟩
    · intro time htime
      exact ⟨(h.time time htime).1, (h.time time htime).2.trans hle⟩
    · intro t set hset
      obtain ⟨hevent, hstart, hnow⟩ := h.event t set hset
      exact ⟨hevent, hstart, hnow.trans hle⟩
  | stmr hpc =>
    refine ⟨h.now, ?_, h.event⟩
    rintro time ⟨⟩
    exact ⟨h.now, le_refl _⟩
  | @turn time tmr hpc =>
    obtain ⟨htimers, hutime, hset, htime⟩ := turn_keeps s time tmr
    refine ⟨?_, ?_, ?_⟩
    · rw [hutime]
      exact h.now
    · intro time' htime'
      rw [htime time' htime', hutime]
      apply h.time
      rw [hpc]
      rfl
    · rw [htimers, hutime, hset]
      exact h.event
  | call c hpc => exact call_stamped h c
  | @procReturns time tmr t hpc =>
    refine ⟨h.now, ?_, ?_⟩
    · rintro time' ⟨⟩
      apply h.time
      rw [hpc]
      rfl
    · intro u set hset
      by_cases hu : u = t
      · subst hu
        obtain ⟨hevent, hnow⟩ := procReturns_event s time tmr u
        rw [hnow] at hset
        cases hset
        exact ⟨hevent, h.now, le_refl _⟩
      · obtain ⟨hfields, hkept⟩ := procReturns_other s time tmr hu
        rw [hkept] at hset
        rw [fields_event hfields]
        exact h.event u set hset
  | ignored => exact h

theorem utime_le_step (s : Sys n) (i : Input n) : s.utime ≤ (step s i).1.utime := by
  have hcases := step_cases s i
  generalize step s i = r at hcases ⊢
  cases hcases with
  | tick us => exact Nat.le_add_right ..
  | turn hpc => exact (turn_keeps s _ _).2.1.ge
  | call c hpc => exact (call_utime s c).ge
  | stmr hpc => exact le_refl _
  | procReturns hpc => exact le_refl _
  | ignored => exact le_refl _

/-! ## Elapsed time -/

theorem toNat_elapsed {time set : Nat} (hle : set ≤ time) (hspan : time - set < 2 ^ 32) :
    (UInt32.ofNat time - UInt32.ofNat set).toNat = time - set := by
  rw [UInt32.toNat_sub, UInt32.toNat_ofNat', UInt32.toNat_ofNat']
  omega

theorem due_iff {t : Timer n} {time set : Nat} (hevent : t.event = UInt32.ofNat set)
    (hle : set ≤ time) (hspan : time - set < 2 ^ 32) :
    t.Due (UInt32.ofNat time) ↔ t.period.toNat ≤ time - set := by
  unfold Timer.Due
  rw [hevent, UInt32.lt_iff_toNat_lt, toNat_elapsed hle hspan, Nat.not_lt]

/-! ## No timer is early -/

/-- A `proc` is called only when its timer's period is over since its `event` was set. -/
def OnTime (s : Sys n) (i : Input n) : Prop :=
  ∀ t ∈ (step s i).2, ∀ set ∈ s.setAt t, set + (s.timers.timer t).period.toNat ≤ s.utime

/-- Where `stmr` is about to call a `proc`, `event` was not set after its reading of the
clock. -/
def Fresh (s : Sys n) : Input n → Prop
  | .turn =>
    match s.pc with
    | .loop time (some t) =>
      (s.timers.timer t).Active → (s.timers.timer t).Due (UInt32.ofNat time) →
        ∀ set ∈ s.setAt t, set ≤ time
    | _ => True
  | _ => True

instance (s : Sys n) (i : Input n) : Decidable (OnTime s i) := by unfold OnTime; infer_instance

instance (s : Sys n) : (i : Input n) → Decidable (Fresh s i)
  | .turn => by
    dsimp only [Fresh]
    split <;> infer_instance
  | .tick _ | .stmr | .call _ | .procReturns => inferInstanceAs (Decidable True)

theorem mem_turn {s : Sys n} {time : Nat} {tmr : Option (Fin n)} {t : Fin n} :
    t ∈ (s.turn time tmr).2 ↔ tmr = some t ∧ (s.timers.timer t).Active ∧
      (s.timers.timer t).Due (UInt32.ofNat time) := by
  cases tmr with
  | none => simp [Sys.turn]
  | some u =>
    unfold Sys.turn
    simp only [Option.some.injEq]
    split
    · rename_i hactive
      refine iff_of_false List.not_mem_nil ?_
      rintro ⟨rfl, hactive', -⟩
      exact hactive hactive'
    split
    · rename_i hdue
      refine iff_of_false List.not_mem_nil ?_
      rintro ⟨rfl, -, hdue'⟩
      exact hdue hdue'
    · rename_i hactive hdue
      rw [List.mem_singleton]
      constructor
      · rintro rfl
        exact ⟨rfl, not_not.mp hactive, not_not.mp hdue⟩
      · rintro ⟨rfl, -, -⟩
        rfl

theorem mem_step {s : Sys n} {i : Input n} {t : Fin n} (h : t ∈ (step s i).2) :
    i = .turn ∧ ∃ time, s.pc = .loop time (some t) ∧ (s.timers.timer t).Active ∧
      (s.timers.timer t).Due (UInt32.ofNat time) := by
  have hcases := step_cases s i
  generalize step s i = r at hcases h
  cases hcases with
  | @turn time tmr hpc =>
    obtain ⟨rfl, hactive, hdue⟩ := mem_turn.mp h
    exact ⟨rfl, time, hpc, hactive, hdue⟩
  | tick us => cases h
  | stmr hpc => cases h
  | call c hpc => cases h
  | procReturns hpc => cases h
  | ignored => cases h

theorem step_turn {s : Sys n} {time : Nat} {tmr : Option (Fin n)} (hpc : s.pc = .loop time tmr) :
    step s .turn = s.turn time tmr := by
  unfold step
  simp only [hpc]

theorem step_turn_ready {s : Sys n} {time : Nat} {t : Fin n} (hpc : s.pc = .loop time (some t))
    (hactive : (s.timers.timer t).Active) (hdue : (s.timers.timer t).Due (UInt32.ofNat time)) :
    (step s .turn).2 = [t] ∧ ∃ tmr, (step s .turn).1.pc = .proc time tmr t := by
  rw [step_turn hpc]
  unfold Sys.turn
  simp only [not_not.mpr hactive, not_not.mpr hdue, if_false]
  exact ⟨trivial, _, rfl⟩

theorem step_silent (s : Sys n) {i : Input n} (h : i ≠ .turn) : (step s i).2 = [] := by
  apply List.eq_nil_iff_forall_not_mem.mpr
  intro t ht
  exact h (mem_step ht).1

theorem onTime_of_fresh {start : Nat} {s : Sys n} {i : Input n} (h : Stamped start s)
    (hspan : s.utime < start + 2 ^ 32) (hfresh : Fresh s i) : OnTime s i := by
  intro t ht set hset
  obtain ⟨rfl, time, hpc, hactive, hdue⟩ := mem_step ht
  have htime := h.time time (by rw [hpc]; rfl)
  obtain ⟨hevent, hstart, hnow⟩ := h.event t set hset
  simp only [Fresh, hpc] at hfresh
  have hle := hfresh hactive hdue set hset
  rw [due_iff hevent hle (by omega)] at hdue
  omega

/-- If no timer that is about to be called was set after `stmr` read the clock, no timer is
ever early. -/
theorem never_early (timer : Fin n → Timer n) (utime : Nat) (is : List (Input n))
    (hspan : (run step (Sys.boot timer utime) is).1.utime < utime + 2 ^ 32)
    (hfresh : Along step Fresh (Sys.boot timer utime) is) :
    Along step OnTime (Sys.boot timer utime) is := by
  have hclock := along_lt_of_run_lt utime_le_step hspan
  apply along_of_invariant (I := Stamped utime) (fun s i h _ => step_stamped s i h) _
    (stamped_boot timer utime) (along_and _ _ hclock hfresh)
  rintro s i h ⟨hnow, hf⟩
  exact onTime_of_fresh h hnow hf

def shortAndLong (t : Fin 2) : Timer 2 :=
  { period := if t.val = 0 then 10 else 1000, event := 0, flags := stmrActive, next := none }

theorem never_early_short :
    let is := [.call (.add 0), .call (.run 0), .tick 10, .stmr, .turn, .tick 3, .procReturns,
      .turn, .tick 10, .stmr, .turn]
    (run step (Sys.boot shortAndLong 0) is).2 = [0, 0] ∧
      Along step OnTime (Sys.boot shortAndLong 0) is :=
  ⟨by decide +kernel, never_early _ _ _ (by decide +kernel) (by decide +kernel)⟩

/-- The `proc` of the first timer takes 1 us and runs the second one, which is called in the
same pass: 11 us is later than 10 us, the reading of the clock. -/
theorem called_at_once :
    let is := [.call (.add 1), .call (.add 0), .tick 10, .stmr, .turn, .tick 1, .call (.run 1),
      .procReturns]
    let s := (run step (Sys.boot shortAndLong 0) is).1
    Along step Legal (Sys.boot shortAndLong 0) (is ++ [.turn]) ∧
      (run step (Sys.boot shortAndLong 0) (is ++ [.turn])).1.utime < 2 ^ 32 ∧
      s.setAt 1 = some 11 ∧ s.utime = 11 ∧ (step s .turn).2 = [1] ∧
      ¬ Along step OnTime (Sys.boot shortAndLong 0) (is ++ [.turn]) := by
  refine ⟨?_, ?_, ?_, ?_, ?_, ?_⟩ <;> decide +kernel

end Lrndis.Time
