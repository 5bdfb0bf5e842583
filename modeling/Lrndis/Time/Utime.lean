import Mathlib.Data.List.Pairwise
import Lrndis.Time.SysTick

/-!
# `utime` is a monotonic clock

What `utime` has read belongs to one instant as long as COUNTFLAG is clear: a reload since
then would have set it, and the handler cannot have run without one.
-/

namespace Lrndis.SysTick

open Run

variable {c : CoreClock}

/-! ## Units -/

theorem systemCoreClock_toNat (c : CoreClock) : c.systemCoreClock.toNat = c.mhz * 1000000 := by
  rw [CoreClock.systemCoreClock, UInt32.toNat_ofNat', Nat.mod_eq_of_lt c.fits]

theorem load_toNat (c : CoreClock) : c.load.toNat + 1 = 1000 * c.mhz := by
  have hpos := c.pos
  have hdiv : (c.systemCoreClock / 1000).toNat = 1000 * c.mhz := by
    rw [UInt32.toNat_div, systemCoreClock_toNat]
    change c.mhz * 1000000 / 1000 = _
    omega
  rw [CoreClock.load, UInt32.toNat_sub_of_le]
  · rw [hdiv]
    change 1000 * c.mhz - 1 + 1 = _
    omega
  · rw [UInt32.le_iff_toNat_le, hdiv]
    change 1 ≤ _
    omega

theorem ticksPerUs_toNat (c : CoreClock) : c.ticksPerUs.toNat = c.mhz := by
  rw [CoreClock.ticksPerUs, UInt32.toNat_div, systemCoreClock_toNat]
  change c.mhz * 1000000 / 1000000 = _
  omega

theorem State.val_div_lt (s : State c) : s.val / c.mhz < 1000 := by
  have hload := load_toNat c
  have hval := s.val_le
  rw [Nat.div_lt_iff_lt_mul c.pos]
  omega

theorem microseconds_clock (s : State c) :
    microseconds c s.usAddition (UInt32.ofNat s.val) = s.clock := by
  have hdiv := s.val_div_lt
  have hload := load_toNat c
  have hfits := c.fits
  have hval : (UInt32.ofNat s.val).toNat = s.val := by
    have := s.val_le
    rw [UInt32.toNat_ofNat']
    omega
  have hticks : (UInt32.ofNat s.val / c.ticksPerUs).toNat = s.val / c.mhz := by
    rw [UInt32.toNat_div, hval, ticksPerUs_toNat]
  have hsub : (1000 - UInt32.ofNat s.val / c.ticksPerUs).toNat = 1000 - s.val / c.mhz := by
    rw [UInt32.toNat_sub_of_le]
    · rw [hticks]
      rfl
    · rw [UInt32.le_iff_toNat_le, hticks]
      exact Nat.le_of_lt hdiv
  rw [microseconds, hsub, State.clock]
  omega

theorem Word.of_add_other (word : Word) (a : Int) : word.of a + word.other.of a = a := by
  cases word <;> simp only [Word.of, Word.other] <;> omega

/-! ## What has been read -/

/-- Unless the flag has been set since, what `utime` has read makes a time that satisfies
`P`, and no handler is to come that would change what it still has to read. -/
def Reads (word : Word) (P : Int → Prop) (s : State c) : Prop :=
  s.countflag = false →
    match s.pc with
    | .idle | .ctrl | .val => True
    | .first ticks => s.pending = false ∧ P (microseconds c s.usAddition ticks)
    | .second ticks first =>
      s.pending = false ∧ first = word.of s.usAddition ∧ P (microseconds c s.usAddition ticks)
    | .check ticks => P (microseconds c s.res ticks)

section Steps

variable {word : Word} {P Q : Int → Prop} {s : State c}

theorem Reads.mono (h : Reads word P s) (hPQ : ∀ t, P t → Q t) : Reads word Q s := by
  intro hflag
  specialize h hflag
  split at h
  · trivial
  · trivial
  · trivial
  · exact ⟨h.1, hPQ _ h.2⟩
  · exact ⟨h.1, h.2.1, hPQ _ h.2.2⟩
  · exact hPQ _ h

theorem reads_of_idle (h : s.pc = .idle) : Reads word P s := by
  intro _
  rw [h]
  trivial

theorem tick_reads (h : Reads word P s) : Reads word P s.tick := by
  unfold State.tick
  split
  · intro hflag
    exact absurd hflag (by simp)
  · exact h

theorem handler_reads (hpending : s.pending = true) (h : Reads word P s) :
    Reads word P { s with usAddition := s.usAddition + 1000, pending := false } := by
  intro hflag
  specialize h hflag
  cases hpc : s.pc with
  | first ticks =>
    rw [hpc, hpending] at h
    exact absurd h.1 (by simp)
  | second ticks first =>
    rw [hpc, hpending] at h
    exact absurd h.1 (by simp)
  | check ticks =>
    rw [hpc] at h
    exact h
  | _ => trivial

theorem access_reads (hrun : s.pending = false) (hclock : P s.clock) (h : Reads word P s) :
    Reads word P (s.access word).1 ∧ ∀ t ∈ (s.access word).2, P t := by
  unfold State.access
  split
  · exact ⟨h, by simp⟩
  · exact ⟨fun _ => trivial, by simp⟩
  · -- The instant: `VAL` and `usAddition` belong together.
    refine ⟨fun _ => ⟨hrun, ?_⟩, by simp⟩
    rw [microseconds_clock]
    exact hclock
  · rename_i ticks hpc
    rw [Reads, hpc] at h
    exact ⟨fun hflag => ⟨hrun, rfl, (h hflag).2⟩, by simp⟩
  · rename_i ticks first hpc
    rw [Reads, hpc] at h
    refine ⟨fun hflag => ?_, by simp⟩
    obtain ⟨-, rfl, hP⟩ := h hflag
    simp only [Word.of_add_other]
    exact hP
  · rename_i ticks hpc
    rw [Reads, hpc] at h
    split
    · exact ⟨fun _ => trivial, by simp⟩
    · rename_i hflag
      have hP := h (Bool.of_not_eq_true hflag)
      simp only
      split
      · exact ⟨reads_of_idle rfl, by simpa using hP⟩
      · exact ⟨by rw [Reads, hpc]; exact fun _ => hP, by simp⟩

theorem step_reads (i : Input) (hclock : s.pending = false → P s.clock) (h : Reads word P s) :
    Reads word P (step word s i).1 ∧ ∀ t ∈ (step word s i).2, P t := by
  unfold step
  split
  · exact ⟨tick_reads h, by simp⟩
  · split
    · rename_i hpending
      exact ⟨handler_reads hpending.1 h, by simp⟩
    · exact ⟨h, by simp⟩
  · split
    · exact ⟨h, by simp⟩
    · split
      · exact ⟨fun _ => trivial, by simp⟩
      · exact ⟨h, by simp⟩
  · split
    · exact ⟨h, by simp⟩
    · rename_i hpending
      have hrun := Bool.of_not_eq_true hpending
      exact access_reads hrun (hclock hrun) h

end Steps

/-! ## Consistency -/

/-- `t` is the clock at an instant of the run at which the main program may go on. -/
def AtInstant (word : Word) (s : State c) (is : List Input) (t : Int) : Prop :=
  ∃ p, p <+: is ∧ (run (step word) s p).1.pending = false ∧ t = (run (step word) s p).1.clock

section Runs

variable {word : Word} {s : State c}

theorem atInstant_now {is : List Input} (hrun : (run (step word) s is).1.pending = false) :
    AtInstant word s is (run (step word) s is).1.clock :=
  ⟨is, List.prefix_refl is, hrun, rfl⟩

theorem AtInstant.snoc {is : List Input} {t : Int} (i : Input) (h : AtInstant word s is t) :
    AtInstant word s (is ++ [i]) t := by
  obtain ⟨p, hp, hclock⟩ := h
  exact ⟨p, hp.trans (List.prefix_append is [i]), hclock⟩

theorem run_reads (h : Reads word (fun _ => False) s) (is : List Input) :
    Reads word (AtInstant word s is) (run (step word) s is).1 := by
  induction is using List.reverseRecOn with
  | nil => exact h.mono fun _ hfalse => hfalse.elim
  | append_singleton is i ih =>
    rw [run_snoc]
    exact (step_reads i atInstant_now ih).1.mono fun _ ht => ht.snoc i

theorem returned_atInstant (h : Reads word (fun _ => False) s) (is : List Input) (i : Input) :
    ∀ t ∈ (step word (run (step word) s is).1 i).2, AtInstant word s is t :=
  (step_reads i atInstant_now (run_reads h is)).2

theorem call_reads (hidle : s.pc = .idle) (P : Int → Prop) :
    Reads word P (step word s .call).1 := by
  unfold step
  simp only
  split
  · exact reads_of_idle hidle
  · rw [hidle]
    exact fun _ => trivial

end Runs

/-! ## Monotonicity -/

/-- What no result so far is above, and no result from now on is below. A handler to come is
anticipated. -/
def State.reached (s : State c) : Int := if s.pending then s.usAddition + 1000 else s.clock

theorem reached_of_pending {s : State c} (h : s.pending = true) :
    s.reached = s.usAddition + 1000 := by
  rw [State.reached, if_pos h]

theorem reached_of_running {s : State c} (h : s.pending = false) : s.reached = s.clock := by
  rw [State.reached, h]
  rfl

theorem clock_le (s : State c) : s.clock ≤ s.usAddition + 1000 :=
  Int.sub_le_self _ (Int.natCast_nonneg _)

theorem lt_clock (s : State c) : s.usAddition < s.clock := by
  have hdiv := s.val_div_lt
  unfold State.clock
  generalize s.val / c.mhz = us at hdiv ⊢
  omega

section Reached

variable {word : Word} {s s' : State c}

theorem reached_le_of_reload (hpending : s'.pending = true)
    (hus : s'.usAddition = s.usAddition) : s.reached ≤ s'.reached := by
  rw [reached_of_pending hpending, hus]
  cases hp : s.pending with
  | false =>
    rw [reached_of_running hp]
    exact clock_le s
  | true => exact Int.le_of_eq (reached_of_pending hp)

theorem reached_le_of_count (hpending : s'.pending = s.pending)
    (hus : s'.usAddition = s.usAddition) (hval : s'.val ≤ s.val) : s.reached ≤ s'.reached := by
  cases hp : s.pending with
  | false =>
    have hdiv : s'.val / c.mhz ≤ s.val / c.mhz := Nat.div_le_div_right hval
    rw [reached_of_running hp, reached_of_running (hpending.trans hp), State.clock, State.clock, hus]
    generalize s'.val / c.mhz = us' at hdiv ⊢
    generalize s.val / c.mhz = us at hdiv ⊢
    omega
  | true =>
    have hreached := reached_of_pending (hpending.trans hp)
    rw [hus] at hreached
    exact Int.le_of_eq ((reached_of_pending hp).trans hreached.symm)

theorem reached_le_of_handler (hpending : s.pending = true) (hrun : s'.pending = false)
    (hus : s'.usAddition = s.usAddition + 1000) : s.reached ≤ s'.reached := by
  rw [reached_of_pending hpending, reached_of_running hrun, ← hus]
  exact Int.le_of_lt (lt_clock s')

theorem reached_tick (s : State c) : s.reached ≤ s.tick.reached := by
  unfold State.tick
  split
  · exact reached_le_of_reload rfl rfl
  · exact reached_le_of_count rfl rfl (Nat.sub_le ..)

theorem access_frame (word : Word) (s : State c) :
    (s.access word).1.pending = s.pending ∧ (s.access word).1.usAddition = s.usAddition ∧
      (s.access word).1.val = s.val := by
  unfold State.access
  split
  case h_6 =>
    split
    · exact ⟨rfl, rfl, rfl⟩
    · simp only
      split <;> exact ⟨rfl, rfl, rfl⟩
  all_goals exact ⟨rfl, rfl, rfl⟩

theorem reached_step (word : Word) (s : State c) (i : Input) :
    s.reached ≤ (step word s i).1.reached := by
  unfold step
  split
  · exact reached_tick s
  · split
    · rename_i hpending
      exact reached_le_of_handler hpending.1 rfl rfl
    · exact Int.le_refl _
  · split
    · exact Int.le_refl _
    · split
      · exact reached_le_of_count rfl rfl (Nat.le_refl _)
      · exact Int.le_refl _
  · split
    · exact Int.le_refl _
    · obtain ⟨hpending, hus, hval⟩ := access_frame word s
      exact reached_le_of_count hpending hus (Nat.le_of_eq hval)

theorem step_output (word : Word) (s : State c) (i : Input) :
    (step word s i).2 = [] ∨ ∃ t, (step word s i).2 = [t] ∧ (step word s i).1.pc = .idle := by
  unfold step
  split
  · exact Or.inl rfl
  · split <;> exact Or.inl rfl
  · split
    · exact Or.inl rfl
    · split <;> exact Or.inl rfl
  · split
    · exact Or.inl rfl
    · unfold State.access
      split
      case h_6 =>
        split
        · exact Or.inl rfl
        · simp only
          split
          · exact Or.inr ⟨_, rfl, rfl⟩
          · exact Or.inl rfl
      all_goals exact Or.inl rfl

end Reached

structure Ordered (word : Word) (s : State c) (results : List Int) : Prop where
  pairwise : results.Pairwise (· ≤ ·)
  reached : ∀ t ∈ results, t ≤ s.reached
  reads : Reads word (fun t => (∀ r ∈ results, r ≤ t) ∧ t ≤ s.reached) s

theorem Ordered.step {word : Word} {s : State c} {results : List Int} (i : Input)
    (h : Ordered word s results) :
    Ordered word (step word s i).1 (results ++ (step word s i).2) := by
  obtain ⟨hpairwise, hreached, hreads⟩ := h
  have hup := reached_step word s i
  -- With no handler to come, no result so far is above the clock.
  have hclock : s.pending = false → (∀ r ∈ results, r ≤ s.clock) ∧ s.clock ≤ s.reached := by
    intro hrun
    rw [reached_of_running hrun] at hreached ⊢
    exact ⟨hreached, Int.le_refl _⟩
  obtain ⟨hreads', hresult⟩ := step_reads i hclock hreads
  rcases step_output word s i with hnone | ⟨t, hone, hidle⟩
  · rw [hnone, List.append_nil]
    refine ⟨hpairwise, fun r hr => Int.le_trans (hreached r hr) hup, hreads'.mono ?_⟩
    exact fun t ht => ⟨ht.1, Int.le_trans ht.2 hup⟩
  · rw [hone] at hresult ⊢
    obtain ⟨habove, hbelow⟩ := hresult t (List.mem_singleton_self t)
    refine ⟨?_, ?_, reads_of_idle hidle⟩
    · rw [List.pairwise_append]
      refine ⟨hpairwise, List.pairwise_singleton _ t, ?_⟩
      intro r hr t' ht'
      rw [List.mem_singleton.mp ht']
      exact habove r hr
    · intro r hr
      rcases List.mem_append.mp hr with hr | hr
      · exact Int.le_trans (hreached r hr) hup
      · rw [List.mem_singleton.mp hr]
        exact Int.le_trans hbelow hup

/-- Each result of `utime` is the clock at an instant between the call and the return, and
no result is below an earlier one. -/
theorem utime_monotonic (c : CoreClock) (word : Word) (s : State c) (hidle : s.pc = .idle) :
    (∀ (during : List Input) (t : Int),
      t ∈ (step word (run (step word) s (.call :: during)).1 .access).2 →
      ∃ p, p <+: during ∧ (run (step word) s (.call :: p)).1.pending = false ∧
        t = (run (step word) s (.call :: p)).1.clock) ∧
    ∀ is, (run (step word) s is).2.Pairwise (· ≤ ·) := by
  constructor
  · intro during t ht
    exact returned_atInstant (call_reads hidle _) during .access t ht
  · intro is
    have hboot : Ordered word s [] := ⟨List.Pairwise.nil, by simp, reads_of_idle hidle⟩
    exact (history_run (fun _ _ i h => Ordered.step i h) hboot is).pairwise

/-- A reload between the reads of `VAL` and `usAddition`: they are read again. -/
theorem utime_monotonic_reload :
    let c : CoreClock := ⟨168, by decide, by decide⟩
    let during : List Input := [.access, .access, .tick, .handler, .access, .access, .access,
      .access, .access, .access]
    (∃ p, p <+: during ∧ (run (step .low) (State.boot c) (.call :: p)).1.pending = false ∧
      1001 = (run (step .low) (State.boot c) (.call :: p)).1.clock) ∧
    (run (step .low) (State.boot c) (.call :: during)).2.Pairwise (· ≤ ·) := by
  intro c during
  obtain ⟨hinstant, hordered⟩ := utime_monotonic c .low (State.boot c) rfl
  exact ⟨hinstant during 1001 (by decide +kernel), hordered _⟩

end Lrndis.SysTick
