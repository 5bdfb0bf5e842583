import Lrndis.Lib.Buffer

/-!
# Lists of options

An option is a code, a length and that many bytes. There may be codes without a length: a
pad is one byte, and a stop ends the list. Nothing here knows which codes those are.
-/

namespace Tlv

open Mem

structure Grammar where
  pad : UInt8 → Bool
  stop : UInt8 → Bool

/-- Every code is that of an option. -/
def plain : Grammar where
  pad := fun _ => false
  stop := fun _ => false

/-- Where the options are that lie wholly within `size`, from `i` on. -/
def walk (g : Grammar) (bytes : List UInt8) (size i : Nat) : List Nat :=
  if i < size then
    if g.stop (byteAt bytes i) then []
    else if g.pad (byteAt bytes i) then walk g bytes size (i + 1)
    else if i + 1 < size then
      if i + (byteAt bytes (i + 1)).toNat + 2 > size then []
      else i :: walk g bytes size (i + (byteAt bytes (i + 1)).toNat + 2)
    else []
  else []
termination_by size - i

def find (g : Grammar) (bytes : List UInt8) (size : Nat) (code : UInt8) : Option Nat :=
  (walk g bytes size 0).find? fun i => byteAt bytes i = code

section Walk

variable {g : Grammar} {bytes : List UInt8} {size i : Nat}

theorem walk_end (h : ¬ i < size) : walk g bytes size i = [] := by
  rw [walk, if_neg h]

theorem walk_stop (h : i < size) (hstop : g.stop (byteAt bytes i) = true) :
    walk g bytes size i = [] := by
  rw [walk, if_pos h, if_pos hstop]

theorem walk_pad (h : i < size) (hstop : g.stop (byteAt bytes i) = false)
    (hpad : g.pad (byteAt bytes i) = true) :
    walk g bytes size i = walk g bytes size (i + 1) := by
  rw [walk, if_pos h, if_neg (by simp [hstop]), if_pos hpad]

theorem walk_option (hfit : i + (byteAt bytes (i + 1)).toNat + 2 ≤ size)
    (hstop : g.stop (byteAt bytes i) = false) (hpad : g.pad (byteAt bytes i) = false) :
    walk g bytes size i = i :: walk g bytes size (i + (byteAt bytes (i + 1)).toNat + 2) := by
  rw [walk, if_pos (by omega), if_neg (by simp [hstop]), if_neg (by simp [hpad]),
    if_pos (by omega), if_neg (by omega)]

theorem walk_cut (hcut : i + 1 < size → i + (byteAt bytes (i + 1)).toNat + 2 > size)
    (hpad : g.pad (byteAt bytes i) = false) : walk g bytes size i = [] := by
  rw [walk]
  split
  · split
    · rfl
    rw [if_neg (by simp [hpad])]
    split
    · rename_i hi
      rw [if_pos (hcut hi)]
    · rfl
  · rfl

theorem bounds_of_mem_walk {p : Nat} (h : p ∈ walk g bytes size i) : i ≤ p ∧ p < size := by
  induction i using walk.induct g bytes size with
  | case1 i hi hstop =>
    rw [walk_stop hi hstop] at h
    cases h
  | case2 i hi hstop hpad ih =>
    rw [walk_pad hi (by simpa using hstop) hpad] at h
    exact ⟨Nat.le_trans (Nat.le_succ i) (ih h).1, (ih h).2⟩
  | case3 i hi hstop hpad hnext hcut =>
    rw [walk_cut (fun _ => hcut) (by simpa using hpad)] at h
    cases h
  | case4 i hi hstop hpad hnext hfit ih =>
    rw [walk_option (by omega) (by simpa using hstop) (by simpa using hpad), List.mem_cons] at h
    rcases h with rfl | h
    · exact ⟨Nat.le_refl _, hi⟩
    · obtain ⟨hle, hlt⟩ := ih h
      exact ⟨by omega, hlt⟩
  | case5 i hi hstop hpad hnext =>
    rw [walk_cut (fun hn => absurd hn hnext) (by simpa using hpad)] at h
    cases h
  | case6 i hi =>
    rw [walk_end hi] at h
    cases h

end Walk

/-! ## Where a plain walk goes wrong -/

/-- The first code on the walk from `i` that is no option. -/
def marker (g : Grammar) (bytes : List UInt8) (size i : Nat) : Option Nat :=
  if i < size then
    if g.stop (byteAt bytes i) || g.pad (byteAt bytes i) then some i
    else if i + 1 < size then
      if i + (byteAt bytes (i + 1)).toNat + 2 > size then none
      else marker g bytes size (i + (byteAt bytes (i + 1)).toNat + 2)
    else none
  else none
termination_by size - i

/-- An option with the code comes before the first code that is no option, or no byte from
there on is the code. -/
def Clear (g : Grammar) (bytes : List UInt8) (size : Nat) (code : UInt8) : Prop :=
  ∀ k ∈ marker g bytes size 0,
    (∃ p ∈ walk g bytes size 0, p < k ∧ byteAt bytes p = code) ∨
      ∀ p < size, k ≤ p → byteAt bytes p ≠ code

instance (g : Grammar) (bytes : List UInt8) (size : Nat) (code : UInt8) :
    Decidable (Clear g bytes size code) := by
  unfold Clear; infer_instance

/-- Up to the first code that is no option, it makes no difference that there are such codes. -/
theorem walk_marker (g : Grammar) (bytes : List UInt8) (size i : Nat) :
    ∃ l, walk plain bytes size i =
        l ++ (marker g bytes size i).elim [] (walk plain bytes size) ∧
      walk g bytes size i = l ++ (marker g bytes size i).elim [] (walk g bytes size) := by
  fun_induction marker g bytes size i with
  | case1 i hi hmark => exact ⟨[], rfl, rfl⟩
  | case2 i hi hmark hnext hcut =>
    rw [Bool.or_eq_true, not_or] at hmark
    refine ⟨[], walk_cut (fun _ => hcut) rfl, walk_cut (fun _ => hcut) ?_⟩
    simpa using hmark.2
  | case3 i hi hmark hnext hfit ih =>
    rw [Bool.or_eq_true, not_or] at hmark
    obtain ⟨l, hplain, hg⟩ := ih
    refine ⟨i :: l, ?_, ?_⟩
    · rw [walk_option (by omega) rfl rfl, hplain, List.cons_append]
    · rw [walk_option (by omega) (by simpa using hmark.1) (by simpa using hmark.2), hg,
        List.cons_append]
  | case4 i hi hmark hnext =>
    rw [Bool.or_eq_true, not_or] at hmark
    refine ⟨[], walk_cut (fun hn => absurd hn hnext) rfl, walk_cut (fun hn => absurd hn hnext) ?_⟩
    simpa using hmark.2
  | case5 i hi => exact ⟨[], walk_end hi, walk_end hi⟩

theorem find?_walk_none {g : Grammar} {bytes : List UInt8} {size k : Nat} {code : UInt8}
    (h : ∀ p < size, k ≤ p → byteAt bytes p ≠ code) :
    (walk g bytes size k).find? (fun p => byteAt bytes p = code) = none := by
  rw [List.find?_eq_none]
  intro p hp
  simpa using h p (bounds_of_mem_walk hp).2 (bounds_of_mem_walk hp).1

/-- Where the bytes are clear, a search that takes every code for an option finds the right
one. -/
theorem find_plain_eq {g : Grammar} {bytes : List UInt8} {size : Nat} {code : UInt8}
    (h : Clear g bytes size code) : find plain bytes size code = find g bytes size code := by
  obtain ⟨l, hplain, hg⟩ := walk_marker g bytes size 0
  unfold find
  rw [hplain, List.find?_append]
  cases hk : marker g bytes size 0 with
  | none =>
    rw [hk] at hg
    rw [hg, List.find?_append]
    rfl
  | some k =>
    rw [hk] at hg
    rcases h k hk with ⟨p, hp, hlt, hcode⟩ | hno
    · -- the option is one of `l`, before the walks part
      have hmem : p ∈ l := by
        rw [hg] at hp
        refine (List.mem_append.mp hp).resolve_right fun hbehind => ?_
        have hle := (bounds_of_mem_walk hbehind).1
        omega
      have hfound : (l.find? fun p => byteAt bytes p = code).isSome := by
        rw [List.find?_isSome]
        exact ⟨p, hmem, by simpa using hcode⟩
      rw [hg, List.find?_append, Option.or_of_isSome hfound, Option.or_of_isSome hfound]
    · rw [hg, List.find?_append]
      exact congrArg _ ((find?_walk_none hno).trans (find?_walk_none hno).symm)

/-! ## Options written one after another -/

def value (bytes : List UInt8) (p : Nat) : List UInt8 :=
  slice bytes (p + 2) (byteAt bytes (p + 1)).toNat

def encode (opts : List (UInt8 × List UInt8)) : List UInt8 :=
  opts.flatMap fun o => o.1 :: UInt8.ofNat o.2.length :: o.2

@[simp] theorem encode_nil : encode [] = [] := rfl

@[simp] theorem encode_cons (o : UInt8 × List UInt8) (opts : List (UInt8 × List UInt8)) :
    encode (o :: opts) = (o.1 :: UInt8.ofNat o.2.length :: o.2) ++ encode opts := by
  simp [encode]

section Encode

variable {g : Grammar} {pre rest : List UInt8} {o : UInt8 × List UInt8} {size : Nat}
  {code : UInt8}

theorem byteAt_option : byteAt (pre ++ (o.1 :: UInt8.ofNat o.2.length :: o.2) ++ rest) pre.length =
    o.1 := by
  rw [List.append_assoc, byteAt_append_right _ _ _ (Nat.le_refl _), Nat.sub_self]
  rfl

theorem byteAt_length (ho : o.2.length < 256) :
    (byteAt (pre ++ (o.1 :: UInt8.ofNat o.2.length :: o.2) ++ rest) (pre.length + 1)).toNat =
      o.2.length := by
  rw [List.append_assoc, byteAt_append_right _ _ _ (Nat.le_add_right ..), Nat.add_sub_cancel_left]
  show (UInt8.ofNat o.2.length).toNat = o.2.length
  rw [UInt8.toNat_ofNat']
  omega

theorem value_option (ho : o.2.length < 256) :
    value (pre ++ (o.1 :: UInt8.ofNat o.2.length :: o.2) ++ rest) pre.length = o.2 := by
  have happ : pre ++ (o.1 :: UInt8.ofNat o.2.length :: o.2) ++ rest =
      (pre ++ [o.1, UInt8.ofNat o.2.length]) ++ (o.2 ++ rest) := by simp
  have hlen : pre.length + 2 = (pre ++ [o.1, UInt8.ofNat o.2.length]).length := by simp
  unfold value
  rw [byteAt_length ho, happ, hlen, slice_append_right, List.take_left' rfl]

theorem find?_encode (opts : List (UInt8 × List UInt8)) (pre : List UInt8) (code : UInt8)
    {bytes : List UInt8} (hbytes : bytes = pre ++ encode opts ++ rest)
    (hshort : ∀ o ∈ opts, o.2.length < 256)
    (hcode : ∀ o ∈ opts, g.stop o.1 = false ∧ g.pad o.1 = false)
    (hfit : pre.length + (encode opts).length ≤ size) :
    ((walk g bytes size pre.length).find? fun p => byteAt bytes p = code).map (value bytes) =
      match opts.find? fun o => o.1 = code with
      | some o => some o.2
      | none => ((walk g bytes size (pre.length + (encode opts).length)).find? fun p =>
          byteAt bytes p = code).map (value bytes) := by
  -- The options that were passed over move into `pre`.
  induction opts generalizing pre with
  | nil => simp
  | cons o opts ih =>
    have ho := hshort o List.mem_cons_self
    obtain ⟨hstop, hpad⟩ := hcode o List.mem_cons_self
    have hsplit : bytes =
        pre ++ (o.1 :: UInt8.ofNat o.2.length :: o.2) ++ (encode opts ++ rest) := by
      rw [hbytes]
      simp
    have hfirst : byteAt bytes pre.length = o.1 := by
      rw [hsplit]
      exact byteAt_option
    have hlen : (byteAt bytes (pre.length + 1)).toNat = o.2.length := by
      rw [hsplit]
      exact byteAt_length ho
    have hvalue : value bytes pre.length = o.2 := by
      rw [hsplit]
      exact value_option ho
    have hend : (pre ++ (o.1 :: UInt8.ofNat o.2.length :: o.2)).length =
        pre.length + o.2.length + 2 := by
      rw [List.length_append, List.length_cons, List.length_cons]
      omega
    have hwhole : (encode (o :: opts)).length = o.2.length + 2 + (encode opts).length := by
      rw [encode_cons, List.length_append, List.length_cons, List.length_cons]
    rw [hwhole] at hfit ⊢
    rw [walk_option (by omega) (by rw [hfirst]; exact hstop) (by rw [hfirst]; exact hpad), hlen]
    by_cases hc : o.1 = code
    · rw [List.find?_cons_of_pos (by simpa [hfirst] using hc),
        List.find?_cons_of_pos (by simpa using hc), Option.map_some, hvalue]
    · rw [List.find?_cons_of_neg (by simpa [hfirst] using hc),
        List.find?_cons_of_neg (by simpa using hc)]
      have hrest := ih (pre ++ (o.1 :: UInt8.ofNat o.2.length :: o.2))
        (by rw [hsplit, List.append_assoc, List.append_assoc, List.append_assoc])
        (fun o' ho' => hshort o' (List.mem_cons_of_mem _ ho'))
        (fun o' ho' => hcode o' (List.mem_cons_of_mem _ ho')) (by omega)
      rw [hend] at hrest
      rw [hrest, show pre.length + (o.2.length + 2 + (encode opts).length) =
        pre.length + o.2.length + 2 + (encode opts).length by omega]

/-- Where nothing behind them looks like the code, the search has the value that was encoded
first. -/
theorem find_encode (opts : List (UInt8 × List UInt8)) (hshort : ∀ o ∈ opts, o.2.length < 256)
    (hcode : ∀ o ∈ opts, g.stop o.1 = false ∧ g.pad o.1 = false)
    (hfit : (encode opts).length ≤ size)
    (hbehind : ∀ p, (encode opts).length ≤ p → byteAt (encode opts ++ rest) p ≠ code) :
    (find g (encode opts ++ rest) size code).map (value (encode opts ++ rest)) =
      (opts.find? fun o => o.1 = code).map Prod.snd := by
  have h := find?_encode (g := g) opts [] code
    (List.nil_append (encode opts) ▸ rfl : encode opts ++ rest = [] ++ encode opts ++ rest)
    hshort hcode (by simpa using hfit)
  rw [List.length_nil, Nat.zero_add] at h
  unfold find
  rw [h]
  split
  · rename_i hfound
    rw [hfound]
    rfl
  · rename_i hnone
    rw [hnone, Option.map_none, Option.map_eq_none_iff, List.find?_eq_none]
    intro p hp
    simpa using hbehind p (bounds_of_mem_walk hp).1

end Encode

end Tlv
