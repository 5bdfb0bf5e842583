import Mathlib.Data.Fintype.Card
import Mathlib.Data.List.Nodup
import Lrndis.Time.Clock

/-!
# One pass of `stmr`

`stmr` keeps the timer it looks at next while a `proc` runs. The timers from there on are
the end of the list, as long as that one stays in it.
-/

namespace Lrndis.Time

open Run Linked

variable {n : Nat}

/-! ## The list -/

@[simp] theorem setNext_next (s : Timers n) (tmr : Fin n) (next : Option (Fin n)) :
    (s.setNext tmr next).next = Function.update s.next tmr next := by
  funext t
  unfold Timers.next Timers.setNext
  by_cases h : t = tmr
  · subst h
    rw [set_timer_self, Function.update_self]
  · rw [set_timer_of_ne s _ h, Function.update_of_ne h]

theorem set_next (s : Timers n) (tmr : Fin n) {t : Timer n} (h : t.next = s.next tmr) :
    (s.set tmr t).next = s.next := by
  funext u
  unfold Timers.next
  by_cases hu : u = tmr
  · subst hu
    rw [set_timer_self]
    exact h
  · rw [set_timer_of_ne s _ hu]

theorem stmrInit_next (s : Timers n) (tmr : Fin n) :
    (stmrInit s tmr).next = Function.update s.next tmr s.stmrs := by
  funext u
  unfold Timers.next stmrInit
  by_cases hu : u = tmr
  · subst hu
    simp
  · rw [Function.update_of_ne hu]
    exact congrArg Timer.next (set_timer_of_ne s _ hu)

theorem stmrAdd_next (s : Timers n) (tmr : Fin n) :
    (stmrAdd s tmr).next = Function.update s.next tmr s.stmrs := setNext_next s tmr s.stmrs

theorem stmrStop_next (s : Timers n) (tmr : Fin n) : (stmrStop s tmr).next = s.next :=
  set_next s tmr rfl

theorem stmrRun_next (s : Timers n) (tmr : Fin n) (utime : Nat) :
    (stmrRun s tmr utime).next = s.next := set_next s tmr rfl

theorem stmrFreeLoop_mem (s : Timers n) {tmr t : Fin n} {l : List (Fin n)} {k : Nat}
    (h : Nodes s.next (some t) (t :: l)) (hmem : tmr ∈ l) (hk : l.length ≤ k) :
    ∃ before p after, t :: l = before ++ p :: tmr :: after ∧
      stmrFreeLoop s tmr k t = (s.setNext p (s.timer tmr).next).setNext tmr none := by
  induction l generalizing t k with
  | nil => cases hmem
  | cons u l ih =>
    cases k with
    | zero => simp at hk
    | succ k =>
      have hnext : (s.timer t).next = some u := h.2.1
      have hrest : Nodes s.next (some u) (u :: l) := ⟨rfl, h.2.2⟩
      unfold stmrFreeLoop
      simp only [hnext]
      by_cases hu : u = tmr
      · subst hu
        rw [if_pos rfl]
        exact ⟨[], t, l, rfl, rfl⟩
      · rw [if_neg hu]
        have hmem' : tmr ∈ l := (List.mem_cons.mp hmem).resolve_left fun he => hu he.symm
        obtain ⟨before, p, after, hsplit, hloop⟩ := ih hrest hmem' (Nat.le_of_succ_le_succ hk)
        exact ⟨t :: before, p, after, by rw [hsplit]; rfl, hloop⟩

theorem stmrFreeLoop_not_mem (s : Timers n) {tmr t : Fin n} {l : List (Fin n)} (k : Nat)
    (h : Nodes s.next (some t) (t :: l)) (hmem : tmr ∉ l) : stmrFreeLoop s tmr k t = s := by
  induction l generalizing t k with
  | nil =>
    have hnext : (s.timer t).next = none := h.2
    cases k with
    | zero => rfl
    | succ k =>
      unfold stmrFreeLoop
      simp only [hnext]
  | cons u l ih =>
    have hnext : (s.timer t).next = some u := h.2.1
    rw [List.mem_cons, not_or] at hmem
    cases k with
    | zero => rfl
    | succ k =>
      unfold stmrFreeLoop
      simp only [hnext]
      rw [if_neg (Ne.symm hmem.1)]
      exact ih k ⟨rfl, h.2.2⟩ hmem.2

theorem length_le_of_nodup {l : List (Fin n)} (h : l.Nodup) : l.length ≤ n := by
  have hcard := h.length_le_card
  rwa [Fintype.card_fin] at hcard

theorem stmrFree_nodes {s : Timers n} {l : List (Fin n)} (h : Nodes s.next s.stmrs l)
    (hnodup : l.Nodup) (tmr : Fin n) :
    Nodes (stmrFree s tmr).next (stmrFree s tmr).stmrs (l.erase tmr) := by
  have hlen := length_le_of_nodup hnodup
  cases l with
  | nil =>
    have hhead : s.stmrs = none := h
    unfold stmrFree
    rw [hhead]
    exact h
  | cons head l =>
    have hhead : s.stmrs = some head := h.1
    rw [hhead] at h
    unfold stmrFree
    simp only [hhead]
    by_cases ht : tmr = head
    · subst ht
      rw [if_pos rfl, List.erase_cons_head]
      show Nodes (s.setNext tmr none).next (s.next tmr) l
      rw [setNext_next]
      exact h.pop hnodup
    · rw [if_neg ht, List.erase_cons_tail (by simpa using Ne.symm ht)]
      by_cases hmem : tmr ∈ l
      · obtain ⟨before, p, after, hsplit, hloop⟩ :=
          stmrFreeLoop_mem s h hmem (Nat.le_of_succ_le hlen)
        have herase : head :: l.erase tmr = before ++ p :: after := by
          rw [hsplit] at hnodup
          rw [← List.erase_cons_tail (by simpa using Ne.symm ht), hsplit]
          exact erase_inner hnodup
        rw [hloop, herase]
        rw [hsplit] at h hnodup
        simp only [setNext_next]
        show Nodes _ s.stmrs _
        rw [hhead]
        exact h.unlink hnodup
      · -- The loop runs to the end of the list, and changes nothing.
        rw [stmrFreeLoop_not_mem s n h hmem, List.erase_of_not_mem hmem, hhead]
        exact h

/-! ## Where `stmr` is in the list -/

def Pc.tmr : Pc n → Option (Fin n)
  | idle => none
  | loop _ tmr => tmr
  | proc _ tmr _ => tmr

def Pc.running : Pc n → Option (Fin n)
  | proc _ _ t => some t
  | _ => none

/-- `stmr` has looked at `done`, and `rest` is before it. -/
structure Walk (s : Sys n) (done rest : List (Fin n)) : Prop where
  nodes : Nodes s.timers.next s.timers.stmrs (done ++ rest)
  nodup : (done ++ rest).Nodup
  tmr : s.pc.tmr = rest.head?
  running : ∀ t, s.pc.running = some t → t ∉ rest

theorem Walk.listed {s : Sys n} {done rest : List (Fin n)} (h : Walk s done rest) :
    s.listed = done ++ rest := h.nodes.follow_eq (length_le_of_nodup h.nodup)

theorem walk_boot (timer : Fin n → Timer n) (utime : Nat) : Walk (Sys.boot timer utime) [] [] where
  nodes := rfl
  nodup := List.nodup_nil
  tmr := rfl
  running := by
    rintro t ⟨⟩

/-- The timer that `stmr` looks at next is not freed by a `proc`. -/
def KeepsNext (s : Sys n) : Input n → Prop
  | .call (.free tmr) => s.pc.running ≠ none → s.pc.tmr ≠ some tmr
  | _ => True

instance (s : Sys n) : (i : Input n) → Decidable (KeepsNext s i)
  | .call (.free tmr) => inferInstanceAs (Decidable (s.pc.running ≠ none → s.pc.tmr ≠ some tmr))
  | .call (.init _) | .call (.add _) | .call (.stop _) | .call (.run _) | .call (.period _ _)
  | .tick _ | .stmr | .turn | .procReturns => inferInstanceAs (Decidable True)

theorem Walk.of_same {s s' : Sys n} {done rest : List (Fin n)} (h : Walk s done rest)
    (hnext : s'.timers.next = s.timers.next) (hstmrs : s'.timers.stmrs = s.timers.stmrs)
    (htmr : s'.pc.tmr = s.pc.tmr) (hrunning : ∀ t, s'.pc.running = some t → s.pc.running = some t) :
    Walk s' done rest where
  nodes := by
    rw [hnext, hstmrs]
    exact h.nodes
  nodup := h.nodup
  tmr := htmr.trans h.tmr
  running := fun t ht => h.running t (hrunning t ht)

theorem Walk.call_same {s : Sys n} {done rest : List (Fin n)} (h : Walk s done rest) (c : Call n)
    (hnext : (s.call c).timers.next = s.timers.next)
    (hstmrs : (s.call c).timers.stmrs = s.timers.stmrs) : Walk (s.call c) done rest := by
  apply h.of_same hnext hstmrs
  · rw [call_pc]
  · rw [call_pc]
    exact fun t ht => ht

theorem Walk.call_push {s : Sys n} {done rest : List (Fin n)} (h : Walk s done rest) (c : Call n)
    {tmr : Fin n} (hfresh : tmr ∉ s.listed)
    (hnext : (s.call c).timers.next = Function.update s.timers.next tmr s.timers.stmrs)
    (hstmrs : (s.call c).timers.stmrs = some tmr) : Walk (s.call c) (tmr :: done) rest := by
  rw [h.listed] at hfresh
  refine ⟨?_, List.nodup_cons.mpr ⟨hfresh, h.nodup⟩, ?_, ?_⟩
  · rw [hnext, hstmrs]
    exact h.nodes.push hfresh
  · rw [call_pc]
    exact h.tmr
  · rw [call_pc]
    exact h.running

theorem Walk.call_free {s : Sys n} {done rest : List (Fin n)} (h : Walk s done rest) {tmr : Fin n}
    (hhead : rest.head? ≠ some tmr) :
    Walk (s.call (.free tmr)) (done.erase tmr) (rest.erase tmr) ∧
      tmr ∉ done.erase tmr ++ rest.erase tmr := by
  rw [← erase_append_nodup h.nodup]
  refine ⟨⟨?_, ?_, ?_, ?_⟩, h.nodup.not_mem_erase⟩
  · rw [← erase_append_nodup h.nodup]
    exact stmrFree_nodes h.nodes h.nodup tmr
  · rw [← erase_append_nodup h.nodup]
    exact h.nodup.erase tmr
  · rw [head?_erase hhead]
    exact h.tmr
  · intro t ht hmem
    exact h.running t ht (List.mem_of_mem_erase hmem)

theorem call_walk {s : Sys n} {done rest : List (Fin n)} (h : Walk s done rest) (c : Call n)
    (hpc : ∀ time tmr, s.pc ≠ .loop time tmr) (hlegal : Legal s (.call c))
    (hnext : KeepsNext s (.call c)) :
    ∃ done' rest', Walk (s.call c) done' rest' ∧
      (rest' = rest ∨
        ∃ tmr, c = .free tmr ∧ rest' = rest.erase tmr ∧ tmr ∉ done' ++ rest') := by
  cases c with
  | init tmr =>
    exact ⟨_, _, h.call_push (.init tmr) hlegal (stmrInit_next s.timers tmr) rfl, .inl rfl⟩
  | add tmr =>
    exact ⟨_, _, h.call_push (.add tmr) hlegal (stmrAdd_next s.timers tmr) rfl, .inl rfl⟩
  | free tmr =>
    have hhead : rest.head? ≠ some tmr := by
      rw [← h.tmr]
      cases hp : s.pc with
      | idle => exact (Option.some_ne_none tmr).symm
      | loop time tmr' => exact absurd hp (hpc time tmr')
      | proc time tmr' t =>
        rw [← hp]
        apply hnext
        rw [hp]
        exact Option.some_ne_none t
    obtain ⟨hwalk, hgone⟩ := h.call_free hhead
    exact ⟨_, _, hwalk, .inr ⟨tmr, rfl, rfl, hgone⟩⟩
  | stop tmr =>
    exact ⟨_, _, h.call_same (.stop tmr) (stmrStop_next s.timers tmr) rfl, .inl rfl⟩
  | run tmr =>
    exact ⟨_, _, h.call_same (.run tmr) (stmrRun_next s.timers tmr s.utime) rfl, .inl rfl⟩
  | period tmr us =>
    exact ⟨_, _, h.call_same (.period tmr us) (set_next s.timers tmr rfl) rfl, .inl rfl⟩

/-- What a step in `stmr` does to the rest of the list. -/
inductive Moves (s : Sys n) : Input n → List (Fin n) → List (Fin n) → Prop
  | turn {time : Nat} {t : Fin n} {rest : List (Fin n)}
      (hpc : s.pc = .loop time (some t)) : Moves s .turn (t :: rest) rest
  | free {t : Fin n} {rest : List (Fin n)} (hrunning : s.pc.running ≠ none)
      (hgone : t ∉ (step s (.call (.free t))).1.listed) :
    Moves s (.call (.free t)) rest (rest.erase t)
  | stay {i : Input n} {rest : List (Fin n)} (hout : (step s i).2 = []) : Moves s i rest rest

theorem turn_walk {s : Sys n} {done rest : List (Fin n)} {time : Nat} {tmr : Option (Fin n)}
    (h : Walk s done rest) (hpc : s.pc = .loop time tmr) :
    ∃ done' rest', Walk (s.turn time tmr).1 done' rest' ∧ Moves s .turn rest rest' := by
  have hhead := h.tmr
  rw [hpc] at hhead
  cases rest with
  | nil =>
    obtain rfl : tmr = none := hhead
    refine ⟨done, [], ⟨h.nodes, h.nodup, rfl, ?_⟩, .stay ?_⟩
    · rintro t ⟨⟩
    · rw [step_turn hpc]
      rfl
  | cons t rest =>
    obtain rfl : tmr = some t := hhead
    have hsplit : (done ++ [t]) ++ rest = done ++ t :: rest := by simp
    have hnodes := hsplit ▸ h.nodes
    have hnodup := hsplit ▸ h.nodup
    have hnext : s.timers.next t = rest.head? := (h.nodes.suffix.2).head_eq
    have hnot : t ∉ rest := (List.nodup_cons.mp (List.nodup_append.mp h.nodup).2.1).1
    refine ⟨done ++ [t], rest, ?_, .turn hpc⟩
    unfold Sys.turn
    simp only
    split
    · refine ⟨hnodes, hnodup, hnext, ?_⟩
      rintro u ⟨⟩
    split
    · refine ⟨hnodes, hnodup, hnext, ?_⟩
      rintro u ⟨⟩
    · refine ⟨hnodes, hnodup, hnext, ?_⟩
      rintro u ⟨⟩
      exact hnot

theorem Walk.rest_nil {s : Sys n} {done rest : List (Fin n)} (h : Walk s done rest)
    (hidle : s.pc = .idle) : rest = [] := by
  have hhead := h.tmr
  rw [hidle] at hhead
  exact List.head?_eq_none_iff.mp hhead.symm

theorem step_walk {s : Sys n} {i : Input n} {done rest : List (Fin n)} (h : Walk s done rest)
    (hlegal : Legal s i) (hnext : KeepsNext s i) :
    ∃ done' rest', Walk (step s i).1 done' rest' ∧ (s.pc ≠ .idle → Moves s i rest rest') := by
  have hcases := step_cases s i
  generalize hr : step s i = r at hcases ⊢
  cases hcases with
  | tick us =>
    exact ⟨done, rest, h.of_same rfl rfl rfl fun _ ht => ht, fun _ => .stay rfl⟩
  | stmr hpc =>
    obtain rfl := h.rest_nil hpc
    have hnodes := h.nodes
    have hnodup := h.nodup
    rw [List.append_nil] at hnodes hnodup
    refine ⟨[], done, ⟨hnodes, hnodup, hnodes.head_eq, ?_⟩, fun hne => absurd hpc hne⟩
    rintro t ⟨⟩
  | turn hpc =>
    obtain ⟨done', rest', hwalk, hmoves⟩ := turn_walk h hpc
    exact ⟨done', rest', hwalk, fun _ => hmoves⟩
  | call c hpc =>
    obtain ⟨done', rest', hwalk, hrest⟩ := call_walk h c hpc hlegal hnext
    refine ⟨done', rest', hwalk, fun hidle => ?_⟩
    rcases hrest with rfl | ⟨tmr, rfl, rfl, hgone⟩
    · exact .stay (congrArg Prod.snd hr)
    · apply Moves.free
      · obtain ⟨time, tmr', t, hp⟩ := in_proc hidle hpc
        rw [hp]
        exact Option.some_ne_none t
      · rw [hr, hwalk.listed]
        exact hgone
  | @procReturns time tmr t hpc =>
    have hsame : (s.procReturns time tmr t).timers.next = s.timers.next :=
      set_next s.timers t rfl
    refine ⟨done, rest, h.of_same hsame rfl ?_ ?_, fun _ => .stay (congrArg Prod.snd hr)⟩
    · rw [hpc]
      rfl
    · rintro u ⟨⟩
  | ignored => exact ⟨done, rest, h, fun _ => .stay (congrArg Prod.snd hr)⟩

end Lrndis.Time
