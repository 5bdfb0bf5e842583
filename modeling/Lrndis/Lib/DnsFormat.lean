import Lrndis.Lib.Buffer

/-!
# The format of DNS messages

A parser for whole messages: a header with four counts, and as many questions and
records in the four sections, with nothing left over. A name is a list of labels of 1 to
63 bytes, and may end with a pointer to an earlier name.
-/

namespace DnsFormat

open Mem

/-! ## Names -/

/-- The name at `off`, and where it ends. A pointer goes to before `bound`, the place
where the present name starts. -/
def name (msg : List UInt8) (bound off : Nat) : Option (List (List UInt8) × Nat) :=
  if off < msg.length then
    let k := (byteAt msg off).toNat
    if k = 0 then some ([], off + 1)
    else if k ≤ 63 then
      if off + 1 + k ≤ msg.length then
        (name msg bound (off + 1 + k)).map fun r => (slice msg (off + 1) k :: r.1, r.2)
      else none
    else if 192 ≤ k ∧ off + 1 < msg.length then
      let target := (k - 192) * 256 + (byteAt msg (off + 1)).toNat
      if target < bound then (name msg target target).map fun r => (r.1, off + 2)
      else none
    else none
  else none
termination_by (bound, msg.length - off)

/-- Labels with their lengths before them, and a zero byte. -/
def encode (ls : List (List UInt8)) : List UInt8 :=
  ls.flatMap (fun l => UInt8.ofNat l.length :: l) ++ [0]

/-- The labels at the front of some bytes, whatever their lengths. -/
def labels (bytes : List UInt8) : Option (List (List UInt8)) :=
  match bytes with
  | [] => none
  | b :: rest =>
    if b = 0 then some []
    else if b.toNat ≤ rest.length then
      (labels (rest.drop b.toNat)).map (rest.take b.toNat :: ·)
    else none
termination_by bytes.length
decreasing_by simp only [List.length_drop, List.length_cons]; omega

theorem encode_cons (l : List UInt8) (ls : List (List UInt8)) :
    encode (l :: ls) = UInt8.ofNat l.length :: l ++ encode ls := by
  simp [encode]

theorem length_encode_cons (l : List UInt8) (ls : List (List UInt8)) :
    (encode (l :: ls)).length = 1 + l.length + (encode ls).length := by
  rw [encode_cons, List.length_append, List.length_cons]
  omega

theorem append_encode_cons (pre l : List UInt8) (ls : List (List UInt8)) (post : List UInt8) :
    pre ++ encode (l :: ls) ++ post =
      pre ++ (UInt8.ofNat l.length :: l) ++ (encode ls ++ post) := by
  rw [encode_cons]
  simp

theorem toNat_length (l : List UInt8) (h : l.length < 256) :
    (UInt8.ofNat l.length).toNat = l.length := by
  rw [UInt8.toNat_ofNat']
  omega

theorem labels_encode (ls : List (List UInt8)) (post : List UInt8)
    (h : ∀ l ∈ ls, 1 ≤ l.length ∧ l.length < 256) : labels (encode ls ++ post) = some ls := by
  induction ls with
  | nil =>
    unfold labels
    simp [encode]
  | cons l ls ih =>
    obtain ⟨hpos, hlt⟩ := h l (by simp)
    have hl := toNat_length l hlt
    have hne : UInt8.ofNat l.length ≠ 0 := by
      intro hz
      rw [hz] at hl
      change 0 = l.length at hl
      omega
    rw [encode_cons, List.cons_append, List.cons_append, labels, if_neg hne, hl, List.append_assoc,
      if_pos (by simp), List.drop_left' rfl, List.take_left' rfl,
      ih fun l' hl' => h l' (by simp [hl'])]
    rfl

theorem encode_length_pos (ls : List (List UInt8)) : 0 < (encode ls).length := by
  simp [encode]

theorem encode_injective {ls ls' : List (List UInt8)} (h : ∀ l ∈ ls, l.length < 256)
    (h' : ∀ l ∈ ls', l.length < 256) (heq : encode ls = encode ls') : ls = ls' := by
  have hone : ∀ (l : List UInt8) ls, (encode (l :: ls)).length ≠ (encode []).length := by
    intro l ls
    have hpos := encode_length_pos ls
    rw [length_encode_cons, show (encode []).length = 1 from rfl]
    omega
  induction ls generalizing ls' with
  | nil =>
    cases ls' with
    | nil => rfl
    | cons l' ls' => exact absurd (congrArg List.length heq).symm (hone l' ls')
  | cons l ls ih =>
    cases ls' with
    | nil => exact absurd (congrArg List.length heq) (hone l ls)
    | cons l' ls' =>
      rw [encode_cons, encode_cons, List.cons_append, List.cons_append, List.cons.injEq] at heq
      obtain ⟨hcode, hrest⟩ := heq
      have hlength : l.length = l'.length := by
        rw [← toNat_length l (h l List.mem_cons_self),
          ← toNat_length l' (h' l' List.mem_cons_self), hcode]
      obtain ⟨rfl, htail⟩ := List.append_inj hrest hlength
      rw [ih (fun m hm => h m (List.mem_cons_of_mem _ hm))
        (fun m hm => h' m (List.mem_cons_of_mem _ hm)) htail]

theorem labels_sound {bytes : List UInt8} {ls : List (List UInt8)} (h : labels bytes = some ls) :
    (∀ l ∈ ls, 1 ≤ l.length ∧ l.length < 256) ∧ ∃ rest, bytes = encode ls ++ rest := by
  fun_induction labels bytes generalizing ls with
  | case1 => simp at h
  | case2 rest =>
    obtain rfl : [] = ls := Option.some.inj h
    exact ⟨by simp, rest, rfl⟩
  | case3 b rest hb hfits ih =>
    obtain ⟨ls', hls', rfl⟩ := Option.map_eq_some_iff.mp h
    obtain ⟨hlengths, tail, htail⟩ := ih hls'
    have hlen : (rest.take b.toNat).length = b.toNat := by
      rw [List.length_take]
      omega
    have hpos : b.toNat ≠ 0 := fun hzero => hb (UInt8.toNat_inj.mp hzero)
    have hlt := b.toNat_lt
    refine ⟨?_, tail, ?_⟩
    · intro l hl
      rcases List.mem_cons.mp hl with rfl | hl
      · omega
      · exact hlengths l hl
    · rw [encode_cons, hlen, UInt8.ofNat_toNat, List.cons_append, List.cons_append,
        List.append_assoc, ← htail, List.take_append_drop]
  | case4 => simp at h

theorem byteAt_label (pre l post : List UInt8) (h : l.length < 256) :
    (byteAt (pre ++ (UInt8.ofNat l.length :: l) ++ post) pre.length).toNat = l.length := by
  rw [List.append_assoc, byteAt_append_right _ _ _ (Nat.le_refl _), Nat.sub_self]
  exact toNat_length l h

theorem name_label (pre l post : List UInt8) (bound : Nat) (hpos : 1 ≤ l.length)
    (hle : l.length ≤ 63) :
    name (pre ++ (UInt8.ofNat l.length :: l) ++ post) bound pre.length =
      (name (pre ++ (UInt8.ofNat l.length :: l) ++ post) bound
        (pre ++ (UInt8.ofNat l.length :: l)).length).map fun r => (l :: r.1, r.2) := by
  have hbyte := byteAt_label pre l post (by omega)
  have hslice : slice (pre ++ (UInt8.ofNat l.length :: l) ++ post) (pre.length + 1) l.length =
      l := by
    have happ : pre ++ (UInt8.ofNat l.length :: l) ++ post =
        (pre ++ [UInt8.ofNat l.length]) ++ (l ++ post) := by simp
    have hlen : pre.length + 1 = (pre ++ [UInt8.ofNat l.length]).length := by simp
    rw [happ, hlen, slice_append_right, List.take_left' rfl]
  have hend : (pre ++ (UInt8.ofNat l.length :: l)).length = pre.length + 1 + l.length := by
    simp
    omega
  rw [name, if_pos (by simp), hbyte, hend]
  simp only [hslice]
  rw [if_neg (by omega), if_pos hle, if_pos (by simp; omega)]

theorem name_encode (pre : List UInt8) (ls : List (List UInt8)) (post : List UInt8) (bound : Nat)
    (h : ∀ l ∈ ls, 1 ≤ l.length ∧ l.length ≤ 63) :
    name (pre ++ encode ls ++ post) bound pre.length =
      some (ls, pre.length + (encode ls).length) := by
  induction ls generalizing pre with
  | nil =>
    unfold name
    simp [encode, byteAt]
  | cons l ls ih =>
    obtain ⟨hpos, hle⟩ := h l (by simp)
    have hrest := ih (pre ++ (UInt8.ofNat l.length :: l)) fun l' hl' => h l' (by simp [hl'])
    rw [List.append_assoc _ (encode ls)] at hrest
    rw [append_encode_cons, name_label pre l _ bound hpos hle, hrest, encode_cons]
    simp only [Option.map_some, List.length_append, List.length_cons]
    congr 2
    omega

theorem name_long (pre : List UInt8) (ls : List (List UInt8)) (post : List UInt8) (bound : Nat)
    (h : ∀ l ∈ ls, 1 ≤ l.length ∧ l.length < 192) (hlong : ∃ l ∈ ls, 63 < l.length) :
    name (pre ++ encode ls ++ post) bound pre.length = none := by
  induction ls generalizing pre with
  | nil =>
    obtain ⟨l, hl, -⟩ := hlong
    simp at hl
  | cons l ls ih =>
    obtain ⟨hpos, hlt⟩ := h l (by simp)
    rw [append_encode_cons]
    rcases Nat.lt_or_ge 63 l.length with hl | hl
    · have hbyte := byteAt_label pre l (encode ls ++ post) (by omega)
      rw [name, if_pos (by simp), hbyte]
      simp only
      rw [if_neg (by omega), if_neg (by omega), if_neg (by omega)]
    · have hlong' : ∃ l' ∈ ls, 63 < l'.length := by
        obtain ⟨l', hmem, hl'⟩ := hlong
        rcases List.mem_cons.mp hmem with rfl | hmem
        · omega
        · exact ⟨l', hmem, hl'⟩
      have hrest := ih (pre ++ (UInt8.ofNat l.length :: l)) (fun l' hl' => h l' (by simp [hl']))
        hlong'
      rw [List.append_assoc _ (encode ls)] at hrest
      rw [name_label pre l _ bound hpos hl, hrest]
      rfl

theorem name_pointer (msg : List UInt8) (bound off : Nat) (hoff : off + 1 < msg.length)
    (hfirst : byteAt msg off = 0xC0) (hback : (byteAt msg (off + 1)).toNat < bound) :
    name msg bound off =
      (name msg (byteAt msg (off + 1)).toNat (byteAt msg (off + 1)).toNat).map
        fun r => (r.1, off + 2) := by
  have h192 : (0xC0 : UInt8).toNat = 192 := rfl
  rw [name, if_pos (by omega), hfirst, h192]
  simp only [Nat.sub_self, Nat.zero_mul, Nat.zero_add]
  rw [if_neg (by omega), if_neg (by omega), if_pos ⟨Nat.le_refl _, hoff⟩, if_pos hback]

/-! ## Sections -/

structure Question where
  name : List (List UInt8)
  type : UInt16
  class_ : UInt16
deriving DecidableEq

structure Record where
  name : List (List UInt8)
  type : UInt16
  class_ : UInt16
  ttl : UInt32
  data : List UInt8
deriving DecidableEq

def question (msg : List UInt8) (off : Nat) : Option (Question × Nat) :=
  (name msg off off).bind fun r =>
    if r.2 + 4 ≤ msg.length then
      some ({ name := r.1, type := net16At msg r.2, class_ := net16At msg (r.2 + 2) }, r.2 + 4)
    else none

def record (msg : List UInt8) (off : Nat) : Option (Record × Nat) :=
  (name msg off off).bind fun r =>
    let len := (net16At msg (r.2 + 8)).toNat
    if r.2 + 10 + len ≤ msg.length then
      some ({
        name := r.1
        type := net16At msg r.2
        class_ := net16At msg (r.2 + 2)
        ttl := net32At msg (r.2 + 4)
        data := slice msg (r.2 + 10) len }, r.2 + 10 + len)
    else none

def many {β : Type} (p : Nat → Option (β × Nat)) : Nat → Nat → Option (List β × Nat)
  | 0, off => some ([], off)
  | n + 1, off => (p off).bind fun r => (many p n r.2).map fun q => (r.1 :: q.1, q.2)

theorem many_length {β : Type} (p : Nat → Option (β × Nat)) (n off : Nat) (xs : List β)
    (stop : Nat) (h : many p n off = some (xs, stop)) : xs.length = n := by
  induction n generalizing off xs stop with
  | zero =>
    simp only [many, Option.some.injEq, Prod.mk.injEq] at h
    simp [← h.1]
  | succ n ih =>
    simp only [many, Option.bind_eq_some_iff, Option.map_eq_some_iff, Prod.mk.injEq] at h
    obtain ⟨r, -, q, hq, rfl, -⟩ := h
    rw [List.length_cons, ih r.2 q.1 q.2 hq]

structure Message where
  id : UInt16
  response : Bool
  questions : List Question
  answers : List Record
  authority : List Record
  additional : List Record
deriving DecidableEq

def message (msg : List UInt8) : Option Message :=
  if msg.length < 12 then none
  else
    (many (question msg) (net16At msg 4).toNat 12).bind fun qd =>
    (many (record msg) (net16At msg 6).toNat qd.2).bind fun an =>
    (many (record msg) (net16At msg 8).toNat an.2).bind fun ns =>
    (many (record msg) (net16At msg 10).toNat ns.2).bind fun ar =>
    if ar.2 = msg.length then
      some {
        id := net16At msg 0
        response := byteAt msg 2 &&& 0x80 ≠ 0
        questions := qd.1
        answers := an.1
        authority := ns.1
        additional := ar.1 }
    else none

end DnsFormat
