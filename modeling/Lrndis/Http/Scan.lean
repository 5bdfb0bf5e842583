import Lrndis.Http.Ssi

/-!
# Tags in a file

What the state machine takes for a tag, apart from how the file is sent, and the documents
in which it finds the tags that were put there.
-/

namespace Lrndis.Http

open Template

inductive Scan
  /-- so many characters of the lead-in -/
  | leadin (n : Nat)
  | name (l : List UInt8)
  /-- the name, and so many characters of the lead-out -/
  | leadout (l : List UInt8) (n : Nat)
deriving DecidableEq

def scanNext : Scan → UInt8 → Move Scan (List UInt8)
  | .leadin n, c =>
    if c = Mem.byteAt gPcTagLeadIn n then
      .more (if n + 1 = gPcTagLeadIn.length then .name [] else .leadin (n + 1))
    else .text
  | .name l, c =>
    if l.length = 0 ∧ isSpace c then .more (.name l)
    else if c = Mem.byteAt gPcTagLeadOut 0 ∨ isSpace c then
      if l.length = 0 then .text
      else .more (.leadout l (if c = Mem.byteAt gPcTagLeadOut 0 then 1 else 0))
    else if l.length < lwipHttpdMaxTagNameLen then .more (.name (l ++ [c]))
    else .text
  | .leadout l n, c =>
    if n = 0 ∧ isSpace c then .more (.leadout l n)
    else if c = Mem.byteAt gPcTagLeadOut n then
      if n = gPcTagLeadOut.length - 1 then .tag l else .more (.leadout l (n + 1))
    else .text

def ssiScanner : Scanner Scan UInt8 (List UInt8) where
  first c := if c = Mem.byteAt gPcTagLeadIn 0 then some (.leadin 1) else none
  next := scanNext

/-! ## Tags -/

structure TagName (name : List UInt8) : Prop where
  ne_nil : name ≠ []
  length_le : name.length ≤ lwipHttpdMaxTagNameLen
  plain : ∀ c ∈ name, c ≠ Mem.byteAt gPcTagLeadOut 0 ∧ ¬isSpace c

/-- `<!--#name-->`, with white space before the name and behind it. -/
def tagText (pre name post : List UInt8) : List UInt8 :=
  gPcTagLeadIn ++ pre ++ name ++ post ++ gPcTagLeadOut

section Tags

variable {pre name post l text raw : List UInt8} {c : UInt8}

abbrev inside (text : List UInt8) (s : Scan) (raw : List UInt8) : Reading Scan UInt8 :=
  ⟨text, some (s, raw)⟩

theorem readAll_leadIn :
    ssiScanner.readAll .start gPcTagLeadIn = ([], inside [] (.name []) gPcTagLeadIn) := rfl

theorem read_more {s s' : Scan} (h : scanNext s c = .more s') :
    ssiScanner.read (inside text s raw) c = ([], inside text s' (raw ++ [c])) := by
  simp only [Scanner.read, ssiScanner, h]

theorem read_text {s : Scan} (h : scanNext s c = .text) :
    ssiScanner.read (inside text s raw) c = ([], ⟨text ++ raw ++ [c], none⟩) := by
  simp only [Scanner.read, ssiScanner, h]

theorem read_first (h : c ≠ Mem.byteAt gPcTagLeadIn 0) :
    ssiScanner.read ⟨text, none⟩ c = ([], ⟨text ++ [c], none⟩) := by
  simp only [Scanner.read, ssiScanner, if_neg h]

theorem read_open (h : c = Mem.byteAt gPcTagLeadIn 0) :
    ssiScanner.read ⟨text, none⟩ c = ([], inside text (.leadin 1) [c]) := by
  simp only [Scanner.read, ssiScanner, if_pos h]

theorem read_tag {s : Scan} {t : List UInt8} (h : scanNext s c = .tag t) :
    ssiScanner.read (inside text s raw) c = ([.text text, .tag t (raw ++ [c])], .start) := by
  simp only [Scanner.read, ssiScanner, h]

theorem readAll_same {s : Scan} (h : ∀ c ∈ l, scanNext s c = .more s) :
    ssiScanner.readAll (inside text s raw) l = ([], inside text s (raw ++ l)) := by
  induction l generalizing raw with
  | nil => simp [Scanner.readAll]
  | cons c l ih =>
    have hc : scanNext s c = .more s := h c List.mem_cons_self
    rw [Scanner.readAll, read_more hc, ih fun c hl => h c (List.mem_cons_of_mem _ hl)]
    simp

theorem readAll_name (hlen : l.length + name.length ≤ lwipHttpdMaxTagNameLen)
    (hplain : ∀ c ∈ name, c ≠ Mem.byteAt gPcTagLeadOut 0 ∧ ¬isSpace c) :
    ssiScanner.readAll (inside text (.name l) raw) name =
      ([], inside text (.name (l ++ name)) (raw ++ name)) := by
  induction name generalizing l raw with
  | nil => simp [Scanner.readAll]
  | cons c name ih =>
    obtain ⟨hdash, hspace⟩ := hplain c List.mem_cons_self
    rw [List.length_cons] at hlen
    have hnext : scanNext (.name l) c = .more (.name (l ++ [c])) := by
      rw [scanNext, if_neg (by simp [hspace]), if_neg (by simp [hdash, hspace]),
        if_pos (by omega)]
    rw [Scanner.readAll, read_more hnext, ih (by simp; omega)
      fun c hc => hplain c (List.mem_cons_of_mem _ hc)]
    simp

theorem readAll_leadOut (hne : l ≠ []) :
    ssiScanner.readAll (inside text (.name l) raw) gPcTagLeadOut =
      ([.text text, .tag l (raw ++ gPcTagLeadOut)], .start) := by
  have hlen : l.length ≠ 0 := fun h => hne (List.length_eq_zero_iff.mp h)
  have h1 : scanNext (.name l) 0x2D = .more (.leadout l 1) := by
    have hdash : (0x2D : UInt8) = Mem.byteAt gPcTagLeadOut 0 := rfl
    rw [scanNext, if_neg (by simp [hlen]), if_pos (Or.inl hdash), if_neg hlen, if_pos hdash]
  have h2 : scanNext (.leadout l 1) 0x2D = .more (.leadout l 2) := rfl
  have h3 : scanNext (.leadout l 2) 0x3E = .tag l := rfl
  simp only [gPcTagLeadOut, Scanner.readAll, read_more h1, read_more h2, read_tag h3]
  simp

theorem readAll_leadOut_spaces (hne : l ≠ []) (hpost : ∀ c ∈ post, isSpace c) :
    ssiScanner.readAll (inside text (.name l) raw) (post ++ gPcTagLeadOut) =
      ([.text text, .tag l (raw ++ post ++ gPcTagLeadOut)], .start) := by
  cases post with
  | nil => simpa using readAll_leadOut hne
  | cons c post =>
    have hlen : l.length ≠ 0 := fun h => hne (List.length_eq_zero_iff.mp h)
    have hc : isSpace c := hpost c List.mem_cons_self
    have hdash : c ≠ Mem.byteAt gPcTagLeadOut 0 := by
      rintro rfl
      exact absurd hc (by decide)
    have h0 : scanNext (.name l) c = .more (.leadout l 0) := by
      rw [scanNext, if_neg (by simp [hlen]), if_pos (Or.inr hc), if_neg hlen, if_neg hdash]
    have hsame : ∀ d ∈ post, scanNext (.leadout l 0) d = .more (.leadout l 0) := by
      intro d hd
      rw [scanNext, if_pos ⟨rfl, hpost d (List.mem_cons_of_mem _ hd)⟩]
    have h1 : scanNext (.leadout l 0) 0x2D = .more (.leadout l 1) := rfl
    have h2 : scanNext (.leadout l 1) 0x2D = .more (.leadout l 2) := rfl
    have h3 : scanNext (.leadout l 2) 0x3E = .tag l := rfl
    have hout : ssiScanner.readAll (inside text (.leadout l 0) (raw ++ [c] ++ post)) gPcTagLeadOut =
        ([.text text, .tag l (raw ++ [c] ++ post ++ gPcTagLeadOut)], .start) := by
      simp only [gPcTagLeadOut, Scanner.readAll, read_more h1, read_more h2, read_tag h3]
      simp
    rw [List.cons_append, Scanner.readAll, read_more h0, readAll_append (readAll_same hsame) hout]
    simp

/-- A tag is found as the tag that it is. -/
theorem writes_tagText (hname : TagName name) (hpre : ∀ c ∈ pre, isSpace c)
    (hpost : ∀ c ∈ post, isSpace c) : ssiScanner.Writes name (tagText pre name post) := by
  have hsame : ∀ c ∈ pre, scanNext (.name []) c = .more (.name []) := by
    intro c hc
    rw [scanNext, if_pos ⟨rfl, hpre c hc⟩]
  have hbefore := readAll_append (readAll_append readAll_leadIn (readAll_same hsame))
    (readAll_name (l := []) (by simpa using hname.length_le) hname.plain)
  have htag := readAll_append hbefore (readAll_leadOut_spaces hname.ne_nil hpost)
  simpa [Scanner.Writes, tagText, List.append_assoc] using htag

end Tags

/-! ## Text -/

/-- No lead-in, and none that the end cuts short. -/
structure NoLeadIn (l : List UInt8) : Prop where
  within : ¬gPcTagLeadIn <:+: l
  at_end : ∀ n, 0 < n → n < gPcTagLeadIn.length → ¬gPcTagLeadIn.take n <:+ l

/-- Either nothing is held, or a part of a lead-in. -/
def Looking (p : List UInt8) (r : Reading Scan UInt8) : Prop :=
  r = ⟨p, none⟩ ∨
    ∃ n text, 0 < n ∧ n < gPcTagLeadIn.length ∧ p = text ++ gPcTagLeadIn.take n ∧
      r = inside text (.leadin n) (gPcTagLeadIn.take n)

theorem looking_read {p : List UInt8} {r : Reading Scan UInt8} {c : UInt8} (h : Looking p r)
    (hno : ¬gPcTagLeadIn <:+ p ++ [c]) :
    (ssiScanner.read r c).1 = [] ∧ Looking (p ++ [c]) (ssiScanner.read r c).2 := by
  rcases h with rfl | ⟨n, text, hpos, hlt, rfl, rfl⟩
  · by_cases hc : c = Mem.byteAt gPcTagLeadIn 0
    · subst hc
      exact ⟨rfl, Or.inr ⟨1, p, by decide, by decide, rfl, rfl⟩⟩
    · rw [read_first hc]
      exact ⟨rfl, Or.inl rfl⟩
  · by_cases hc : c = Mem.byteAt gPcTagLeadIn n
    · have htake : gPcTagLeadIn.take n ++ [c] = gPcTagLeadIn.take (n + 1) := by
        rw [List.take_add_one, List.getElem?_eq_getElem hlt, hc, Mem.byteAt,
          List.getD_eq_getElem?_getD, List.getElem?_eq_getElem hlt]
        rfl
      have hnext : n + 1 ≠ gPcTagLeadIn.length := by
        intro hend
        apply hno
        rw [List.append_assoc, htake, hend, List.take_length]
        exact List.suffix_append text gPcTagLeadIn
      have hmore : scanNext (.leadin n) c = .more (.leadin (n + 1)) := by
        rw [scanNext, if_pos hc, if_neg hnext]
      rw [read_more hmore, htake]
      refine ⟨rfl, Or.inr ⟨n + 1, text, by omega, by omega, ?_, rfl⟩⟩
      rw [List.append_assoc, htake]
    · have htext : scanNext (.leadin n) c = .text := by
        rw [scanNext, if_neg hc]
      rw [read_text htext]
      exact ⟨rfl, Or.inl rfl⟩

theorem looking_readAll {p l : List UInt8} {r : Reading Scan UInt8} (h : Looking p r)
    (hno : ¬gPcTagLeadIn <:+: p ++ l) :
    (ssiScanner.readAll r l).1 = [] ∧ Looking (p ++ l) (ssiScanner.readAll r l).2 := by
  induction l generalizing p r with
  | nil => exact ⟨rfl, by simpa [Scanner.readAll] using h⟩
  | cons c l ih =>
    have hread := looking_read (c := c) h (by
      rintro ⟨q, hq⟩
      exact hno ⟨q, l, by rw [hq]; simp⟩)
    have hall := ih hread.2 (by simpa using hno)
    rw [Scanner.readAll, hread.1]
    exact ⟨by simpa using hall.1, by simpa using hall.2⟩

theorem noLeadIn_of_not_mem {l : List UInt8} (h : 0x3C ∉ l) : NoLeadIn l where
  within := fun hin => h (hin.subset List.mem_cons_self)
  at_end := by
    intro n hpos _ hsuffix
    obtain ⟨k, rfl⟩ := Nat.exists_eq_add_of_lt hpos
    exact h (hsuffix.subset (by rw [Nat.zero_add]; exact List.mem_cons_self))

theorem quiet_of_noLeadIn {l : List UInt8} (h : NoLeadIn l) : ssiScanner.Quiet l := by
  have hstart : Looking [] Reading.start := Or.inl rfl
  obtain ⟨hpieces, hlook⟩ := looking_readAll hstart (by simpa using h.within : ¬gPcTagLeadIn <:+: [] ++ l)
  have hend : (ssiScanner.readAll .start l).2 = ⟨l, none⟩ := by
    rcases hlook with hlook | ⟨n, text, hpos, hlt, hl, -⟩
    · rw [hlook, List.nil_append]
    · exact absurd ⟨text, by simpa using hl.symm⟩ (h.at_end n hpos hlt)
  exact Prod.ext hpieces hend

/-! ## Documents -/

/-- Text without lead-ins, and tags as they should be written. -/
def WellFormed : Piece UInt8 (List UInt8) → Prop
  | .text l => NoLeadIn l
  | .tag name raw =>
    TagName name ∧ ∃ pre post, (∀ c ∈ pre, isSpace c) ∧ (∀ c ∈ post, isSpace c) ∧
      raw = tagText pre name post

theorem written_of_wellFormed {p : Piece UInt8 (List UInt8)} (h : WellFormed p) :
    ssiScanner.Written p := by
  cases p with
  | text l => exact quiet_of_noLeadIn h
  | tag name raw =>
    obtain ⟨hname, pre, post, hpre, hpost, rfl⟩ := h
    exact writes_tagText hname hpre hpost

end Lrndis.Http
