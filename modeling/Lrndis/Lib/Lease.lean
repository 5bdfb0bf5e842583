import Mathlib.Data.Fintype.Card

/-!
# Leases

Slots with an address each. A slot is owned by one client or by none, and a client
owns at most one slot. `held` is what the clients were told last.
-/

namespace Lease

variable {ι μ α : Type}

def Unique (owner : ι → Option μ) : Prop :=
  ∀ i j m, owner i = some m → owner j = some m → i = j

theorem Unique.init {owner : ι → Option μ} (h : ∀ i, owner i = none) : Unique owner := by
  intro i j m hi
  rw [h] at hi
  simp at hi

/-- Each client was told the address of the slot it owns, and no other client was told
anything. -/
def Agrees (addr : ι → α) (owner : ι → Option μ) (held : μ → Option α) : Prop :=
  ∀ m a, held m = some a ↔ ∃ i, owner i = some m ∧ addr i = a

theorem Agrees.init (addr : ι → α) {owner : ι → Option μ} (h : ∀ i, owner i = none) :
    Agrees addr owner fun _ => none := by
  intro m a
  simp [h]

theorem Agrees.exclusive {addr : ι → α} {owner : ι → Option μ} {held : μ → Option α}
    (h : Agrees addr owner held) (hinj : Function.Injective addr) (m m' : μ) (a : α)
    (hm : held m = some a) (hm' : held m' = some a) : m = m' := by
  obtain ⟨i, hi, rfl⟩ := (h m a).mp hm
  obtain ⟨j, hj, hij⟩ := (h m' _).mp hm'
  rw [hinj hij, hi] at hj
  exact Option.some.inj hj

/-- With as many slots as clients, no client is left without: a slot is free, or its own. -/
theorem Unique.exists_room [Fintype ι] {owner : ι → Option μ} (h : Unique owner) (S : Finset μ)
    (hS : ∀ i m, owner i = some m → m ∈ S) (hcard : S.card ≤ Fintype.card ι) (m : μ)
    (hm : m ∈ S) : ∃ i, owner i = none ∨ owner i = some m := by
  classical
  by_contra hfull
  push Not at hfull
  have howned : ∀ i, ∃ m', owner i = some m' := fun i =>
    Option.ne_none_iff_exists'.mp (hfull i).1
  choose f hf using howned
  have hinto : ∀ i ∈ Finset.univ, f i ∈ S.erase m := by
    intro i _
    refine Finset.mem_erase.mpr ⟨?_, hS i _ (hf i)⟩
    rintro rfl
    exact (hfull i).2 (hf i)
  have hinj : Set.InjOn f (Finset.univ : Finset ι) := by
    intro i _ j _ hij
    exact h i j (f i) (hf i) (by rw [hij, hf j])
  have hle := Finset.card_le_card_of_injOn f hinto hinj
  rw [Finset.card_univ] at hle
  have hlt := Finset.card_erase_lt_of_mem hm
  omega

/-! ## Release and grant -/

variable [DecidableEq μ]

def release (owner : ι → Option μ) (m : μ) : ι → Option μ := fun i =>
  if owner i = some m then none else owner i

theorem release_eq_some (owner : ι → Option μ) (m m' : μ) (i : ι) :
    release owner m i = some m' ↔ owner i = some m' ∧ m' ≠ m := by
  unfold release
  split
  · rename_i h
    rw [h]
    simp [eq_comm]
  · rename_i h
    constructor
    · rintro hm
      refine ⟨hm, ?_⟩
      rintro rfl
      exact h hm
    · exact And.left

theorem Unique.release {owner : ι → Option μ} (h : Unique owner) (m : μ) :
    Unique (release owner m) := by
  intro i j m' hi hj
  rw [release_eq_some] at hi hj
  exact h i j m' hi.1 hj.1

variable [DecidableEq ι]

def grant (owner : ι → Option μ) (m : μ) (i : ι) : ι → Option μ :=
  Function.update (release owner m) i (some m)

theorem grant_eq_some (owner : ι → Option μ) (m m' : μ) (i j : ι) :
    grant owner m i j = some m' ↔
      (j = i ∧ m' = m) ∨ (j ≠ i ∧ owner j = some m' ∧ m' ≠ m) := by
  unfold grant
  rcases eq_or_ne j i with rfl | hj
  · simp [eq_comm]
  · simp [hj, release_eq_some]

theorem Unique.grant {owner : ι → Option μ} (h : Unique owner) (m : μ) (i : ι) :
    Unique (grant owner m i) := by
  intro j k m' hj hk
  rw [grant_eq_some] at hj hk
  rcases hj with ⟨rfl, rfl⟩ | ⟨-, hj, hm⟩
  · rcases hk with ⟨rfl, -⟩ | ⟨-, -, hm⟩
    · rfl
    · exact absurd rfl hm
  · rcases hk with ⟨-, rfl⟩ | ⟨-, hk, -⟩
    · exact absurd rfl hm
    · exact h j k m' hj hk

theorem Agrees.grant {addr : ι → α} {owner : ι → Option μ} {held : μ → Option α}
    (h : Agrees addr owner held) (m : μ) (i : ι) (hfree : owner i = none ∨ owner i = some m) :
    Agrees addr (grant owner m i) (Function.update held m (some (addr i))) := by
  intro m' a
  simp only [grant_eq_some]
  rcases eq_or_ne m' m with rfl | hm
  · rw [Function.update_self]
    constructor
    · rintro ha
      exact ⟨i, Or.inl ⟨rfl, rfl⟩, Option.some.inj ha⟩
    · rintro ⟨j, ⟨rfl, -⟩ | ⟨-, -, hne⟩, rfl⟩
      · rfl
      · exact absurd rfl hne
  · rw [Function.update_of_ne hm, h m' a]
    constructor
    · rintro ⟨j, hj, ha⟩
      refine ⟨j, Or.inr ⟨?_, hj, hm⟩, ha⟩
      rintro rfl
      rcases hfree with hf | hf
      · simp [hj] at hf
      · rw [hj] at hf
        exact hm (Option.some.inj hf)
    · rintro ⟨j, ⟨-, rfl⟩ | ⟨-, hj, -⟩, ha⟩
      · exact absurd rfl hm
      · exact ⟨j, hj, ha⟩

end Lease
