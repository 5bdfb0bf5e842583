import Mathlib.Data.List.Basic

/-!
# Templates

A text in which some parts stand for answers that are not known yet. A scanner finds these
parts, the tags, one character after another; what turns out not to be a tag is text.
Nothing here knows what a tag looks like.
-/

namespace Template

variable {σ α τ : Type}

/-- What the next character makes of a possible tag. -/
inductive Move (σ τ : Type)
  | text
  | more (s : σ)
  | tag (t : τ)

structure Scanner (σ α τ : Type) where
  first : α → Option σ
  next : σ → α → Move σ τ

inductive Piece (α τ : Type)
  | text (l : List α)
  | tag (t : τ) (raw : List α)

/-- The text since the last tag, and what may be a tag so far. -/
structure Reading (σ α : Type) where
  text : List α
  held : Option (σ × List α)

def Reading.start : Reading σ α := ⟨[], none⟩

def Reading.all (r : Reading σ α) : List α := r.text ++ (r.held.elim [] fun h => h.2)

namespace Scanner

variable (M : Scanner σ α τ)

def read (r : Reading σ α) (c : α) : List (Piece α τ) × Reading σ α :=
  match r.held with
  | none =>
    match M.first c with
    | none => ([], ⟨r.text ++ [c], none⟩)
    | some s => ([], ⟨r.text, some (s, [c])⟩)
  | some (s, raw) =>
    match M.next s c with
    | .text => ([], ⟨r.text ++ raw ++ [c], none⟩)
    | .more s => ([], ⟨r.text, some (s, raw ++ [c])⟩)
    | .tag t => ([.text r.text, .tag t (raw ++ [c])], .start)

def pieces : Reading σ α → List α → List (Piece α τ)
  | r, [] => [.text r.all]
  | r, c :: cs => (M.read r c).1 ++ pieces (M.read r c).2 cs

end Scanner

/-! ## Filling in -/

/-- The text with the answers in the places of the tags. A missing answer is empty. -/
def fill : List (Piece α τ) → List (List α) → List α
  | [], _ => []
  | .text l :: ps, as => l ++ fill ps as
  | .tag _ _ :: ps, a :: as => a ++ fill ps as
  | .tag _ _ :: ps, [] => fill ps []

def tags : List (Piece α τ) → List τ
  | [] => []
  | .text _ :: ps => tags ps
  | .tag t _ :: ps => t :: tags ps

def source : List (Piece α τ) → List α
  | [] => []
  | .text l :: ps => l ++ source ps
  | .tag _ raw :: ps => raw ++ source ps

section Laws

variable {ps qs : List (Piece α τ)}

theorem source_append (ps qs : List (Piece α τ)) : source (ps ++ qs) = source ps ++ source qs := by
  induction ps with
  | nil => rfl
  | cons p ps ih => cases p <;> simp [source, ih]

theorem length_raw_le {t : τ} {raw : List α} (h : .tag t raw ∈ ps) :
    raw.length ≤ (source ps).length := by
  induction ps with
  | nil => exact absurd h List.not_mem_nil
  | cons p ps ih =>
    rcases List.mem_cons.mp h with rfl | h
    · simp [source]
    · have hle := ih h
      cases p <;> simp only [source, List.length_append] <;> omega

end Laws

/-! ## The scanner and its pieces -/

section Pieces

variable {M : Scanner σ α τ}

theorem source_read (r : Reading σ α) (c : α) :
    source (M.read r c).1 ++ (M.read r c).2.all = r.all ++ [c] := by
  obtain ⟨text, held⟩ := r
  rcases held with - | ⟨s, raw⟩
  · simp only [Scanner.read]
    cases M.first c <;> simp [source, Reading.all]
  · simp only [Scanner.read]
    cases M.next s c <;> simp [source, Reading.all, Reading.start]

theorem source_pieces (r : Reading σ α) (cs : List α) : source (M.pieces r cs) = r.all ++ cs := by
  induction cs generalizing r with
  | nil => simp [Scanner.pieces, source]
  | cons c cs ih =>
    rw [Scanner.pieces, source_append, ih, ← List.append_assoc, source_read, List.append_assoc,
      List.singleton_append]

def Reading.after (l : List α) (r : Reading σ α) : Reading σ α := ⟨l ++ r.text, r.held⟩

theorem read_after (l : List α) (r : Reading σ α) (c : α) :
    ((M.read (r.after l) c).1 = [] ∧ (M.read r c).1 = [] ∧
        (M.read (r.after l) c).2 = (M.read r c).2.after l) ∨
      ∃ t raw, (M.read (r.after l) c).1 = [.text (l ++ r.text), .tag t raw] ∧
        (M.read r c).1 = [.text r.text, .tag t raw] ∧
        (M.read (r.after l) c).2 = .start ∧ (M.read r c).2 = .start := by
  obtain ⟨text, held⟩ := r
  rcases held with - | ⟨s, raw⟩
  · left
    simp only [Scanner.read, Reading.after]
    cases M.first c <;> simp
  · simp only [Scanner.read, Reading.after]
    cases M.next s c with
    | text => simp
    | more s => simp
    | tag t => exact Or.inr ⟨t, raw ++ [c], rfl, rfl, rfl, rfl⟩

theorem fill_after (l : List α) (r : Reading σ α) (cs : List α) (as : List (List α)) :
    fill (M.pieces (r.after l) cs) as = l ++ fill (M.pieces r cs) as := by
  induction cs generalizing r with
  | nil => simp [Scanner.pieces, fill, Reading.all, Reading.after]
  | cons c cs ih =>
    rw [Scanner.pieces, Scanner.pieces]
    rcases read_after (M := M) l r c with ⟨h1, h2, h3⟩ | ⟨t, raw, h1, h2, h3, h4⟩
    · rw [h1, h2, h3, List.nil_append, List.nil_append, ih]
    · rw [h1, h2, h3, h4]
      simp only [List.cons_append, List.nil_append, fill, List.append_assoc]

theorem tags_after (l : List α) (r : Reading σ α) (cs : List α) :
    tags (M.pieces (r.after l) cs) = tags (M.pieces r cs) := by
  induction cs generalizing r with
  | nil => rfl
  | cons c cs ih =>
    rw [Scanner.pieces, Scanner.pieces]
    rcases read_after (M := M) l r c with ⟨h1, h2, h3⟩ | ⟨t, raw, h1, h2, h3, h4⟩
    · rw [h1, h2, h3, List.nil_append, List.nil_append, ih]
    · rw [h1, h2, h3, h4]
      rfl

end Pieces

/-! ## Documents -/

section Documents

variable {M : Scanner σ α τ}

def Scanner.readAll (M : Scanner σ α τ) : Reading σ α → List α → List (Piece α τ) × Reading σ α
  | r, [] => ([], r)
  | r, c :: cs =>
    ((M.read r c).1 ++ (readAll M (M.read r c).2 cs).1, (readAll M (M.read r c).2 cs).2)

/-- A text that is text to the scanner, and leaves nothing open. -/
def Scanner.Quiet (M : Scanner σ α τ) (l : List α) : Prop := M.readAll .start l = ([], ⟨l, none⟩)

/-- What the scanner takes for the tag `t`, and for nothing more. -/
def Scanner.Writes (M : Scanner σ α τ) (t : τ) (raw : List α) : Prop :=
  M.readAll .start raw = ([.text [], .tag t raw], .start)

def Scanner.Written (M : Scanner σ α τ) : Piece α τ → Prop
  | .text l => M.Quiet l
  | .tag t raw => M.Writes t raw

theorem pieces_append (r : Reading σ α) (l cs : List α) :
    M.pieces r (l ++ cs) = (M.readAll r l).1 ++ M.pieces (M.readAll r l).2 cs := by
  induction l generalizing r with
  | nil => rfl
  | cons c l ih => simp [Scanner.pieces, Scanner.readAll, ih]

theorem readAll_append {r r' r'' : Reading σ α} {l cs : List α} {ps qs : List (Piece α τ)}
    (h : M.readAll r l = (ps, r')) (h' : M.readAll r' cs = (qs, r'')) :
    M.readAll r (l ++ cs) = (ps ++ qs, r'') := by
  induction l generalizing r ps with
  | nil =>
    obtain ⟨rfl, rfl⟩ := Prod.mk.inj h
    exact h'
  | cons c l ih =>
    obtain ⟨rfl, rfl⟩ := Prod.mk.inj h
    rw [List.cons_append, Scanner.readAll, ih rfl, List.append_assoc]

theorem after_start (t : List α) : (⟨t, none⟩ : Reading σ α) = Reading.start.after t := by
  simp [Reading.after, Reading.start]

theorem fill_pieces_quiet {l : List α} (h : M.Quiet l) (cs : List α) (as : List (List α)) :
    fill (M.pieces .start (l ++ cs)) as = l ++ fill (M.pieces .start cs) as := by
  rw [pieces_append, h, List.nil_append, after_start, fill_after]

theorem tags_pieces_quiet {l : List α} (h : M.Quiet l) (cs : List α) :
    tags (M.pieces .start (l ++ cs)) = tags (M.pieces .start cs) := by
  rw [pieces_append, h, List.nil_append, after_start, tags_after]

theorem pieces_writes {t : τ} {raw : List α} (h : M.Writes t raw) (cs : List α) :
    M.pieces .start (raw ++ cs) = .text [] :: .tag t raw :: M.pieces .start cs := by
  rw [pieces_append, h]
  rfl

theorem fill_pieces_source {doc : List (Piece α τ)} (h : ∀ p ∈ doc, M.Written p)
    (as : List (List α)) : fill (M.pieces .start (source doc)) as = fill doc as := by
  induction doc generalizing as with
  | nil => rfl
  | cons p doc ih =>
    have hp : M.Written p := h p List.mem_cons_self
    have hdoc : ∀ q ∈ doc, M.Written q := fun q hq => h q (List.mem_cons_of_mem p hq)
    cases p with
    | text l => rw [source, fill_pieces_quiet hp, ih hdoc, fill]
    | tag t raw =>
      rw [source, pieces_writes hp]
      cases as with
      | nil => simp only [fill, List.nil_append, ih hdoc]
      | cons a as => simp only [fill, List.nil_append, ih hdoc]

theorem tags_pieces_source {doc : List (Piece α τ)} (h : ∀ p ∈ doc, M.Written p) :
    tags (M.pieces .start (source doc)) = tags doc := by
  induction doc with
  | nil => rfl
  | cons p doc ih =>
    have hp : M.Written p := h p List.mem_cons_self
    have hdoc : ∀ q ∈ doc, M.Written q := fun q hq => h q (List.mem_cons_of_mem p hq)
    cases p with
    | text l => rw [source, tags_pieces_quiet hp, ih hdoc, tags]
    | tag t raw => rw [source, pieces_writes hp, tags, tags, tags, ih hdoc]

theorem held_readAll_after (l : List α) (r : Reading σ α) (cs : List α) :
    (M.readAll (r.after l) cs).2.held = (M.readAll r cs).2.held := by
  induction cs generalizing r with
  | nil => rfl
  | cons c cs ih =>
    rw [Scanner.readAll, Scanner.readAll]
    rcases read_after (M := M) l r c with ⟨-, -, h⟩ | ⟨t, raw, -, -, h, h'⟩
    · rw [h]
      exact ih _
    · rw [h, h']

theorem readAll_after_of_nil (l : List α) {r : Reading σ α} {cs : List α}
    (h : (M.readAll r cs).1 = []) :
    M.readAll (r.after l) cs = ([], (M.readAll r cs).2.after l) := by
  induction cs generalizing r with
  | nil => rfl
  | cons c cs ih =>
    rw [Scanner.readAll] at h ⊢
    obtain ⟨hfirst, hrest⟩ := List.append_eq_nil_iff.mp h
    rcases read_after (M := M) l r c with ⟨h1, -, h3⟩ | ⟨t, raw, -, h2, -⟩
    · rw [h1, h3, ih hrest]
      rfl
    · rw [h2] at hfirst
      exact absurd hfirst (List.cons_ne_nil _ _)

theorem held_readAll_source {doc : List (Piece α τ)} (h : ∀ p ∈ doc, M.Written p) (t : List α) :
    (M.readAll ⟨t, none⟩ (source doc)).2.held = none := by
  induction doc generalizing t with
  | nil => rfl
  | cons p doc ih =>
    have hp : M.Written p := h p List.mem_cons_self
    have hclosed : ∀ l, (M.readAll .start l).2.held = none →
        (M.readAll ⟨t, none⟩ (l ++ source doc)).2.held = none := by
      intro l hl
      rw [readAll_append rfl rfl]
      rw [after_start, ← held_readAll_after t .start l] at *
      generalize M.readAll (Reading.start.after t) l = r at hl
      obtain ⟨ps, text, held⟩ := r
      obtain rfl : held = none := hl
      exact ih (fun q hq => h q (List.mem_cons_of_mem p hq)) text
    cases p with
    | text l => exact hclosed l (by rw [show M.readAll .start l = ([], ⟨l, none⟩) from hp])
    | tag u raw => exact hclosed raw (by rw [show M.readAll .start raw = _ from hp]; rfl)

theorem pieces_last {doc : List (Piece α τ)} (h : ∀ p ∈ doc, M.Written p) {l : List α}
    (hl : M.Quiet l) : ∃ ps t, M.pieces .start (source doc ++ l) = ps ++ [.text (t ++ l)] := by
  have hheld : (M.readAll Reading.start (source doc)).2.held = none := held_readAll_source h []
  rw [pieces_append]
  generalize M.readAll Reading.start (source doc) = r at hheld
  obtain ⟨ps, t, held⟩ := r
  obtain rfl : held = none := hheld
  have hnil : (M.readAll .start l).1 = [] := by rw [show M.readAll .start l = _ from hl]
  have hpieces : M.pieces ⟨t, none⟩ l = [.text (t ++ l)] := by
    have hall := pieces_append (M := M) ⟨t, none⟩ l []
    rw [List.append_nil] at hall
    rw [hall, after_start, readAll_after_of_nil t hnil, show M.readAll .start l = _ from hl]
    simp [Scanner.pieces, Reading.all, Reading.after]
  exact ⟨ps, t, by rw [hpieces]⟩

end Documents

/-! ## Filling in step by step -/

/-- What someone does who fills in a template: puts out the next part of the text, or
gets the next answer. -/
inductive Act (α τ : Type)
  | put (l : List α)
  | ask (t : τ) (a : List α)
deriving DecidableEq

def output : List (Act α τ) → List α
  | [] => []
  | .put l :: acts => l ++ output acts
  | .ask _ _ :: acts => output acts

def asked : List (Act α τ) → List τ
  | [] => []
  | .put _ :: acts => asked acts
  | .ask t _ :: acts => t :: asked acts

def answers : List (Act α τ) → List (List α)
  | [] => []
  | .put _ :: acts => answers acts
  | .ask _ a :: acts => a :: answers acts

/-- These acts make `qs` of `ps`: with the answers that were got, and whatever the others
will be, the output and what is left make up the whole. -/
def Fills (ps : List (Piece α τ)) (acts : List (Act α τ)) (qs : List (Piece α τ)) : Prop :=
  (∀ as, fill ps (answers acts ++ as) = output acts ++ fill qs as) ∧ tags ps = asked acts ++ tags qs

section Acts

variable {ps qs rs : List (Piece α τ)} {acts more : List (Act α τ)}

theorem output_append (acts more : List (Act α τ)) :
    output (acts ++ more) = output acts ++ output more := by
  induction acts with
  | nil => rfl
  | cons e acts ih => cases e <;> simp [output, ih]

theorem asked_append (acts more : List (Act α τ)) :
    asked (acts ++ more) = asked acts ++ asked more := by
  induction acts with
  | nil => rfl
  | cons e acts ih => cases e <;> simp [asked, ih]

theorem answers_append (acts more : List (Act α τ)) :
    answers (acts ++ more) = answers acts ++ answers more := by
  induction acts with
  | nil => rfl
  | cons e acts ih => cases e <;> simp [answers, ih]

theorem length_answers (acts : List (Act α τ)) : (answers acts).length = (asked acts).length := by
  induction acts with
  | nil => rfl
  | cons e acts ih => cases e <;> simp [answers, asked, ih]

theorem Fills.refl (ps : List (Piece α τ)) : Fills ps [] ps := ⟨fun _ => rfl, rfl⟩

theorem Fills.trans (h : Fills ps acts qs) (h' : Fills qs more rs) :
    Fills ps (acts ++ more) rs := by
  constructor
  · intro as
    rw [answers_append, List.append_assoc, h.1, h'.1, output_append, List.append_assoc]
  · rw [h.2, h'.2, asked_append, List.append_assoc]

theorem fills_text {l : List α} (rest : List α) (ps : List (Piece α τ)) (hout : output acts = l)
    (hasked : asked acts = []) : Fills (.text (l ++ rest) :: ps) acts (.text rest :: ps) := by
  have hanswers : answers acts = [] := by
    rw [← List.length_eq_zero_iff, length_answers, hasked]
    rfl
  constructor
  · intro as
    simp [fill, hanswers, hout]
  · rw [hasked]
    rfl

theorem Fills.under (h : Fills ps acts qs) : Fills (.text [] :: ps) acts (.text [] :: qs) := h

theorem fills_ask (l raw a : List α) (t : τ) (ps : List (Piece α τ)) :
    Fills (.text l :: .tag t raw :: ps) [.ask t a] (.text l :: .text a :: ps) :=
  ⟨fun _ => rfl, rfl⟩

/-- The output is the beginning of the text, filled in with the answers. -/
theorem Fills.output_prefix (h : Fills ps acts qs) (as : List (List α)) :
    output acts <+: fill ps (answers acts ++ as) := by
  rw [h.1 as]
  exact List.prefix_append _ _

theorem Fills.asked_prefix (h : Fills ps acts qs) : asked acts <+: tags ps := by
  rw [h.2]
  exact List.prefix_append _ _

theorem Fills.output_eq (h : Fills ps acts [.text []]) :
    output acts = fill ps (answers acts) ∧ asked acts = tags ps := by
  constructor
  · have hfill := h.1 []
    rw [List.append_nil] at hfill
    simpa [fill] using hfill.symm
  · simpa [tags] using h.2.symm

end Acts

end Template
