import Lrndis.Time.Walk

/-!
# The list of timers

What `stmrs` and the `next` fields stand for: the timers that have been added and not freed
since, the newest first.
-/

namespace Lrndis.Time

open Run Linked

variable {n : Nat}

def callStep (s : Sys n) (c : Call n) : Sys n × List (Fin n) := (s.call c, [])

def Call.added : Call n → Option (Fin n)
  | .init tmr => some tmr
  | .add tmr => some tmr
  | _ => none

/-- The timers that were added by some call and freed by none after it, from the last such
call to the first. -/
def live : List (Call n) → List (Fin n)
  | [] => []
  | c :: calls =>
    match c.added with
    | none => live calls
    | some tmr => if .free tmr ∈ calls then live calls else live calls ++ [tmr]

/-! ## One more call -/

section Live

variable {c : Call n} {tmr : Fin n}

theorem free_mem_snoc (hfree : ∀ t, c ≠ .free t) (calls : List (Call n)) (t : Fin n) :
    .free t ∈ calls ++ [c] ↔ .free t ∈ calls := by
  rw [List.mem_append, List.mem_singleton, or_iff_left (hfree t).symm]

theorem live_snoc_added (h : c.added = some tmr) (calls : List (Call n)) :
    live (calls ++ [c]) = tmr :: live calls := by
  have hfree : ∀ t, c ≠ .free t := by
    rintro t rfl
    simp [Call.added] at h
  induction calls with
  | nil => simp [live, h]
  | cons d calls ih =>
    rw [List.cons_append, live, live, ih]
    cases d.added with
    | none => rfl
    | some t =>
      simp only [free_mem_snoc hfree]
      split <;> rfl

theorem live_snoc_free (calls : List (Call n)) (tmr : Fin n) :
    live (calls ++ [.free tmr]) = (live calls).filter (· != tmr) := by
  induction calls with
  | nil => rfl
  | cons d calls ih =>
    rw [List.cons_append, live, live, ih]
    cases d.added with
    | none => rfl
    | some t =>
      simp only [List.mem_append, List.mem_singleton, Call.free.injEq]
      by_cases hfreed : .free t ∈ calls
      · rw [if_pos (Or.inl hfreed), if_pos hfreed]
      · by_cases ht : t = tmr
        · rw [if_pos (Or.inr ht), if_neg hfreed, List.filter_append, ht]
          simp
        · rw [if_neg (by tauto), if_neg hfreed, List.filter_append]
          simp [ht]

theorem live_snoc_other (hadded : c.added = none) (hfree : ∀ t, c ≠ .free t)
    (calls : List (Call n)) : live (calls ++ [c]) = live calls := by
  induction calls with
  | nil => simp [live, hadded]
  | cons d calls ih =>
    rw [List.cons_append, live, live, ih]
    simp only [free_mem_snoc hfree]

end Live

/-! ## The invariant -/

/-- The list is `l`, with no timer twice. -/
structure Represents (s : Timers n) (l : List (Fin n)) : Prop where
  nodes : Nodes s.next s.stmrs l
  nodup : l.Nodup

section Calls

variable {s : Timers n} {l : List (Fin n)}

theorem Represents.put {s' : Timers n} {tmr : Fin n} (h : Represents s l) (hnew : tmr ∉ l)
    (hnext : s'.next = Function.update s.next tmr s.stmrs) (hstmrs : s'.stmrs = some tmr) :
    Represents s' (tmr :: l) where
  nodes := by
    rw [hnext, hstmrs]
    exact h.nodes.push hnew
  nodup := List.nodup_cons.mpr ⟨hnew, h.nodup⟩

theorem Represents.free (h : Represents s l) (tmr : Fin n) :
    Represents (stmrFree s tmr) (l.erase tmr) where
  nodes := stmrFree_nodes h.nodes h.nodup tmr
  nodup := h.nodup.erase tmr

theorem Represents.of_same {s' : Timers n} (h : Represents s l) (hnext : s'.next = s.next)
    (hstmrs : s'.stmrs = s.stmrs) : Represents s' l where
  nodes := by
    rw [hnext, hstmrs]
    exact h.nodes
  nodup := h.nodup

theorem Represents.free_not_mem (h : Represents s l) {tmr : Fin n} (hmem : tmr ∉ l) :
    stmrFree s tmr = s := by
  unfold stmrFree
  split
  · rfl
  · rename_i head hhead
    have hnodes := h.nodes
    rw [hhead] at hnodes
    obtain ⟨rest, rfl⟩ := hnodes.eq_cons
    rw [List.mem_cons, not_or] at hmem
    rw [if_neg hmem.1]
    exact stmrFreeLoop_not_mem s n hnodes hmem.2

theorem stmrFreeLoop_count (tmr : Fin n) {t : Fin n} {l : List (Fin n)} {k : Nat}
    (h : Nodes s.next (some t) (t :: l)) (hk : l.length ≤ k) :
    stmrFreeLoop s tmr k t = stmrFreeLoop s tmr l.length t := by
  induction l generalizing t k with
  | nil =>
    have hnext : (s.timer t).next = none := h.2
    cases k with
    | zero => rfl
    | succ k => simp only [stmrFreeLoop, hnext]; rfl
  | cons u l ih =>
    have hnext : (s.timer t).next = some u := h.2.1
    cases k with
    | zero => simp at hk
    | succ k =>
      simp only [List.length_cons, stmrFreeLoop, hnext]
      rw [ih ⟨rfl, h.2.2⟩ (Nat.le_of_succ_le_succ hk)]

theorem Represents.free_ends (h : Represents s l) (tmr head : Fin n) (hhead : s.stmrs = some head)
    {k : Nat} (hk : n ≤ k) : stmrFreeLoop s tmr k head = stmrFreeLoop s tmr n head := by
  have hnodes := h.nodes
  have hlen := length_le_of_nodup h.nodup
  rw [hhead] at hnodes
  obtain ⟨rest, rfl⟩ := hnodes.eq_cons
  rw [List.length_cons] at hlen
  rw [stmrFreeLoop_count tmr hnodes (show rest.length ≤ k by omega),
    stmrFreeLoop_count tmr hnodes (show rest.length ≤ n by omega)]

end Calls

theorem Represents.listed {s : Sys n} {l : List (Fin n)} (h : Represents s.timers l) :
    s.listed = l := h.nodes.follow_eq (length_le_of_nodup h.nodup)

theorem Represents.call {s : Sys n} {calls : List (Call n)} (h : Represents s.timers (live calls))
    (c : Call n) (hlegal : Legal s (.call c)) :
    Represents (s.call c).timers (live (calls ++ [c])) := by
  cases c with
  | init tmr =>
    rw [live_snoc_added rfl]
    exact h.put (h.listed ▸ hlegal) (stmrInit_next s.timers tmr) rfl
  | add tmr =>
    rw [live_snoc_added rfl]
    exact h.put (h.listed ▸ hlegal) (stmrAdd_next s.timers tmr) rfl
  | free tmr =>
    rw [live_snoc_free, ← h.nodup.erase_eq_filter]
    exact h.free tmr
  | stop tmr =>
    rw [live_snoc_other rfl (by simp)]
    exact h.of_same (stmrStop_next s.timers tmr) rfl
  | run tmr =>
    rw [live_snoc_other rfl (by simp)]
    exact h.of_same (stmrRun_next s.timers tmr s.utime) rfl
  | period tmr us =>
    rw [live_snoc_other rfl (by simp)]
    exact h.of_same (set_next s.timers tmr rfl) rfl

theorem represents_run (timer : Fin n → Timer n) (utime : Nat) (calls : List (Call n))
    (hlegal : Along callStep (fun s c => Legal s (.call c)) (Sys.boot timer utime) calls) :
    Represents (run callStep (Sys.boot timer utime) calls).1.timers (live calls) := by
  induction calls using List.reverseRecOn with
  | nil => exact ⟨rfl, List.nodup_nil⟩
  | append_singleton calls c ih =>
    rw [along_append] at hlegal
    rw [run_snoc]
    exact (ih hlegal.1).call c hlegal.2.1

/-- After any calls that put no timer into the list twice, the list is that of the live
timers. `stmr_free` takes its timer out and leaves the others as they are, and its loop
ends. -/
theorem list_live (timer : Fin n → Timer n) (utime : Nat) (calls : List (Call n))
    (hlegal : Along callStep (fun s c => Legal s (.call c)) (Sys.boot timer utime) calls) :
    let s := (run callStep (Sys.boot timer utime) calls).1.timers
    (Nodes s.next s.stmrs (live calls) ∧ (live calls).Nodup) ∧
    (∀ tmr ∈ live calls,
      Nodes (stmrFree s tmr).next (stmrFree s tmr).stmrs ((live calls).erase tmr)) ∧
    (∀ tmr ∉ live calls, (stmrFree s tmr).next = s.next ∧ (stmrFree s tmr).stmrs = s.stmrs) ∧
    ∀ tmr head k, s.stmrs = some head → n ≤ k →
      stmrFreeLoop s tmr k head = stmrFreeLoop s tmr n head := by
  intro s
  have h := represents_run timer utime calls hlegal
  refine ⟨⟨h.nodes, h.nodup⟩, ?_, ?_, ?_⟩
  · intro tmr _
    exact (h.free tmr).nodes
  · intro tmr hmem
    rw [h.free_not_mem hmem]
    exact ⟨rfl, rfl⟩
  · intro tmr head k hhead hk
    exact h.free_ends tmr head hhead hk

theorem list_live_three :
    let boot : Sys 3 := Sys.boot (fun _ => { period := 0, event := 0, flags := 0, next := none }) 0
    let calls : List (Call 3) := [.add 0, .init 1, .add 2, .free 1, .free 1, .add 1]
    let s := (run callStep boot calls).1.timers
    live calls = [1, 2, 0] ∧ Nodes s.next s.stmrs (live calls) := by
  intro boot calls s
  exact ⟨by decide, (list_live _ 0 calls (by decide)).1.1⟩

end Lrndis.Time
