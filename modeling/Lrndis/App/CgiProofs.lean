import Mathlib.Data.Option.Basic
import Lrndis.App.Cgi
import Lrndis.Lib.Text

/-!
# What a query string does to the LEDs

The parameters of a string, with the names and values as texts. Those that the pointers
lead to in the end are the same, and the handler is fine unless the value of a LED is
missing.
-/

namespace Lrndis.Cgi

open Mem CString

/-! ## The parameters of a query string -/

structure Parameter where
  name : List UInt8
  value : Option (List UInt8)
deriving DecidableEq

def splitPair (piece : List UInt8) : Parameter :=
  if 0x3D ∈ piece then
    { name := piece.takeWhile (· ≠ 0x3D), value := some (piece.dropWhile (· ≠ 0x3D)).tail }
  else { name := piece, value := none }

/-- The last pair ends at a space. -/
def cutLast : List (List UInt8) → List (List UInt8)
  | [] => []
  | [last] => [last.takeWhile (· ≠ 0x20)]
  | piece :: next :: pieces => piece :: cutLast (next :: pieces)

def parameters (max : Nat) (query : List UInt8) : List Parameter :=
  if query = [] then [] else ((cutLast (query.splitOn 0x26)).take max).map splitPair

/-! ## What the LEDs should be -/

/-- The value of the last parameter of the name that has one. -/
def lastValue (name : UInt8) (ps : List Parameter) : Option (List UInt8) :=
  ((ps.filter (·.name = [name])).filterMap (·.value)).getLast?

def ledAfter (name : UInt8) (led : Bool) (ps : List Parameter) : Bool :=
  match lastValue name ps with
  | none => led
  | some value => value.head? = some 0x31

def Leds.after (leds : Leds) (ps : List Parameter) : Leds :=
  { g := ledAfter 0x67 leds.g ps, o := ledAfter 0x6F leds.o ps, r := ledAfter 0x72 leds.r ps }

def Valued (ps : List Parameter) : Prop :=
  ∀ q ∈ ps, q.name = [0x67] ∨ q.name = [0x6F] ∨ q.name = [0x72] → q.value ≠ none

/-! ## The pointers -/

structure Denotes {n : Nat} (m : Buffer n) (pair : Nat × Option Nat) (q : Parameter) : Prop where
  name : At m.byte pair.1 q.name
  value : Option.Rel (At m.byte) pair.2 q.value

section Pointers

variable {n : Nat} {m : Buffer n} {p : Nat} {text piece : List UInt8}

theorem cutValue_spec (h : At m.byte p piece) :
    (∀ i, i < p ∨ p + piece.length ≤ i → (cutValue m p).1.byte i = m.byte i) ∧
      ∀ m' : Buffer n,
        (∀ i, p ≤ i → i ≤ p + piece.length → m'.byte i = (cutValue m p).1.byte i) →
        Denotes m' (p, (cutValue m p).2) (splitPair piece) := by
  unfold cutValue
  by_cases hmem : (0x3D : UInt8) ∈ piece
  · obtain ⟨name, value, rfl, hnot⟩ := List.eq_append_cons_of_mem hmem
    obtain ⟨hname, hvalue⟩ := h.cut_setByte
    rw [splitPair, if_pos hmem, Text.takeWhile_append_cons hnot, Text.dropWhile_append_cons hnot,
      h.strchr_some hnot]
    simp only [List.length_append, List.length_cons, List.tail_cons]
    refine ⟨fun i hi => m.byte_setByte_ne _ i 0 (by omega), fun m' hsame => ⟨?_, .some ?_⟩⟩
    · exact hname.congr fun i hlow hhigh => hsame i hlow (by omega)
    · exact hvalue.congr fun i hlow hhigh => hsame i (by omega) (by omega)
  · rw [splitPair, if_neg hmem, h.strchr_none (by decide) hmem]
    exact ⟨fun _ _ => rfl, fun m' hsame => ⟨h.congr hsame, .none⟩⟩

theorem cutPair_more {rest : List UInt8} (h : At m.byte p (piece ++ 0x26 :: rest))
    (hnot : 0x26 ∉ piece) :
    (cutPair m p).2 = some (p + piece.length + 1) ∧ At (cutPair m p).1.byte p piece ∧
      At (cutPair m p).1.byte (p + piece.length + 1) rest ∧
      ∀ i < p, (cutPair m p).1.byte i = m.byte i := by
  rw [cutPair, h.strchr_some hnot]
  obtain ⟨hpiece, hrest⟩ := h.cut_setByte
  exact ⟨rfl, hpiece, hrest, fun i hi => m.byte_setByte_ne _ i 0 (by omega)⟩

theorem cutPair_last (h : At m.byte p text) (hnot : 0x26 ∉ text) :
    (cutPair m p).2 = none ∧ At (cutPair m p).1.byte p (text.takeWhile (· ≠ 0x20)) ∧
      ∀ i < p, (cutPair m p).1.byte i = m.byte i := by
  rw [cutPair, h.strchr_none (by decide) hnot]
  by_cases hmem : (0x20 : UInt8) ∈ text
  · obtain ⟨piece, rest, rfl, hspace⟩ := List.eq_append_cons_of_mem hmem
    rw [h.strchr_some hspace, Text.takeWhile_append_cons hspace]
    exact ⟨rfl, h.cut_setByte.1, fun i hi => m.byte_setByte_ne _ i 0 (by omega)⟩
  · rw [h.strchr_none (by decide) hmem, Text.takeWhile_of_not_mem hmem]
    exact ⟨rfl, h, fun _ _ => rfl⟩

theorem cutLast_cons {pieces : List (List UInt8)} (h : pieces ≠ []) :
    cutLast (piece :: pieces) = piece :: cutLast pieces := by
  obtain ⟨next, rest, rfl⟩ := List.exists_cons_of_ne_nil h
  rfl

theorem extractLoop_spec (k : Nat) (h : At m.byte p text) :
    (∀ i < p, (extractLoop k m (some p)).1.byte i = m.byte i) ∧
      List.Forall₂ (Denotes (extractLoop k m (some p)).1) (extractLoop k m (some p)).2
        (((cutLast (text.splitOn 0x26)).take k).map splitPair) := by
  induction k generalizing m p text with
  | zero => exact ⟨fun _ _ => rfl, .nil⟩
  | succ k ih =>
    by_cases hmem : (0x26 : UInt8) ∈ text
    · obtain ⟨piece, rest, rfl, hnot⟩ := List.eq_append_cons_of_mem hmem
      obtain ⟨hnext, hpiece, hrest, hframe⟩ := cutPair_more h hnot
      obtain ⟨hvalueFrame, hdenotes⟩ := cutValue_spec hpiece
      have hrest' : At (cutValue (cutPair m p).1 p).1.byte (p + piece.length + 1) rest :=
        hrest.congr fun i hlow _ => hvalueFrame i (Or.inr (by omega))
      obtain ⟨hloopFrame, hloop⟩ := ih hrest'
      rw [List.splitOn_append_cons_self_of_not_mem hnot, cutLast_cons (List.splitOn_ne_nil _ _)]
      simp only [extractLoop, hnext, List.take_succ_cons, List.map_cons]
      refine ⟨fun i hi => ?_, .cons ?_ hloop⟩
      · rw [hloopFrame i (by omega), hvalueFrame i (Or.inl hi), hframe i hi]
      · exact hdenotes _ fun i _ hhigh => hloopFrame i (by omega)
    · obtain ⟨hnext, hlast, hframe⟩ := cutPair_last h hmem
      obtain ⟨hvalueFrame, hdenotes⟩ := cutValue_spec hlast
      rw [List.splitOn_eq_singleton hmem]
      have hstop : ∀ m' : Buffer n, extractLoop k m' none = (m', []) := by
        intro m'
        cases k <;> rfl
      simp only [extractLoop, hnext, hstop, cutLast, List.take_succ_cons, List.take_nil,
        List.map_cons, List.map_nil]
      refine ⟨fun i hi => ?_, .cons ?_ .nil⟩
      · rw [hvalueFrame i (Or.inl hi), hframe i hi]
      · exact hdenotes _ fun _ _ _ => rfl

end Pointers

/-- The query string that `params` leads to. -/
def query {n : Nat} (m : Buffer n) : Option Nat → List UInt8
  | none => []
  | some p => read m p

theorem extractUriParameters_spec {n : Nat} (max : Nat) (m : Buffer n) (params : Option Nat) :
    List.Forall₂ (Denotes (extractUriParameters max m params).1)
      (extractUriParameters max m params).2 (parameters max (query m params)) := by
  cases params with
  | none => exact .nil
  | some p =>
    have hquery := at_read m p
    unfold extractUriParameters parameters query
    simp only
    by_cases hempty : m.byte p = 0
    · have hnil : read m p = [] := At.read_eq hempty
      rw [if_pos hempty, if_pos hnil]
      exact .nil
    · have hne : read m p ≠ [] := by
        intro hnil
        rw [hnil] at hquery
        exact hempty hquery
      rw [if_neg hempty, if_neg hne]
      exact (extractLoop_spec max hquery).2

/-! ## The handler -/

theorem ledAfter_cons (name : UInt8) (led : Bool) (q : Parameter) (ps : List Parameter) :
    ledAfter name led (q :: ps) = ledAfter name (ledAfter name led [q]) ps := by
  unfold ledAfter lastValue
  by_cases hname : q.name = [name]
  · cases hvalue : q.value with
    | none => simp [hname, hvalue]
    | some value =>
      simp only [List.filter_cons, hname, decide_true, if_true, List.filterMap_cons, hvalue,
        List.getLast?_cons, List.filter_nil, List.filterMap_nil, List.getLast?_nil,
        Option.getD_none]
      cases ((ps.filter fun q => q.name = [name]).filterMap fun q => q.value).getLast? <;> rfl
  · simp [hname]

section Handler

variable {n : Nat} {m : Buffer n} {pair : Nat × Option Nat} {q : Parameter}

theorem at_byte_eq_iff {p : Nat} {text : List UInt8} {c : UInt8} (h : At m.byte p text)
    (hc : c ≠ 0) : m.byte p = c ↔ text.head? = some c := by
  cases text with
  | nil =>
    have hzero : m.byte p = 0 := h
    rw [hzero]
    exact iff_of_false hc.symm (by simp)
  | cons x text =>
    rw [h.1, List.head?_cons, Option.some_inj]

theorem assign_iff (h : Denotes m pair q) (name : UInt8) (led led' : Bool) :
    assign m name pair led = some led' ↔
      (q.name = [name] → q.value ≠ none) ∧ led' = ledAfter name led [q] := by
  obtain ⟨p, value⟩ := pair
  obtain ⟨qname, qvalue⟩ := q
  obtain ⟨hname, hvalue⟩ := h
  unfold assign ledAfter lastValue
  simp only at hname hvalue ⊢
  rw [hname.read_eq]
  by_cases hsame : qname = [name]
  · rw [if_pos hsame]
    cases hvalue with
    | none => simp [hsame]
    | some hat =>
      have hone := at_byte_eq_iff hat (show (0x31 : UInt8) ≠ 0 by decide)
      simp only [hsame, hone, Option.map_some, Option.some_inj, List.filter_cons, decide_true,
        if_true, List.filter_nil, List.filterMap_cons, List.filterMap_nil, List.getLast?_singleton]
      simp [eq_comm]
  · rw [if_neg hsame]
    simp [hsame, eq_comm]

theorem valued_cons (q : Parameter) (ps : List Parameter) :
    Valued (q :: ps) ↔ ((q.name = [0x67] → q.value ≠ none) ∧ (q.name = [0x6F] → q.value ≠ none) ∧
      (q.name = [0x72] → q.value ≠ none)) ∧ Valued ps := by
  unfold Valued
  rw [List.forall_mem_cons, or_imp, or_imp]

theorem after_cons (leds : Leds) (q : Parameter) (ps : List Parameter) :
    leds.after (q :: ps) = (leds.after [q]).after ps := by
  simp only [Leds.after]
  rw [ledAfter_cons _ leds.g, ledAfter_cons _ leds.o, ledAfter_cons _ leds.r]

theorem ctlLoop_iff {pairs : List (Nat × Option Nat)} {ps : List Parameter}
    (h : List.Forall₂ (Denotes m) pairs ps) (leds leds' : Leds) :
    ctlLoop m leds pairs = some leds' ↔ Valued ps ∧ leds' = leds.after ps := by
  induction h generalizing leds with
  | nil =>
    rw [ctlLoop, Option.some_inj, eq_comm]
    exact ⟨fun hsame => ⟨by simp [Valued], hsame⟩, fun hsame => hsame.2⟩
  | cons hq _ ih =>
    simp only [ctlLoop, Option.bind_eq_some_iff, assign_iff hq, ih]
    rw [valued_cons, after_cons]
    constructor
    · rintro ⟨g, ⟨hg, rfl⟩, o, ⟨ho, rfl⟩, r, ⟨hr, rfl⟩, hvalued, hafter⟩
      exact ⟨⟨⟨hg, ho, hr⟩, hvalued⟩, hafter⟩
    · rintro ⟨⟨⟨hg, ho, hr⟩, hvalued⟩, hafter⟩
      exact ⟨_, ⟨hg, rfl⟩, _, ⟨ho, rfl⟩, _, ⟨hr, rfl⟩, hvalued, hafter⟩

end Handler

/-- The handler is safe and sets the LEDs to what the last values say exactly if no
parameter that is named like a LED comes without a value. -/
theorem ctl_right_iff {n : Nat} (max : Nat) (m : Buffer n) (params : Option Nat) (leds : Leds) :
    let extracted := extractUriParameters max m params
    let ps := parameters max (query m params)
    (∃ lamps page, ctlCgiHandler extracted.1 leds extracted.2 = some (leds.after ps, lamps, page)) ↔
      Valued ps := by
  intro extracted ps
  have hloop := ctlLoop_iff (extractUriParameters_spec max m params) leds
  unfold ctlCgiHandler
  constructor
  · rintro ⟨lamps, page, hright⟩
    obtain ⟨leds', hleds, -⟩ := Option.map_eq_some_iff.mp hright
    exact ((hloop leds').mp hleds).1
  · intro hvalued
    rw [(hloop (leds.after ps)).mpr ⟨hvalued, rfl⟩]
    exact ⟨_, _, rfl⟩

/-- `/ctl.cgi?g`: the value of `g` is NULL, and the handler reads from it. -/
theorem ctl_null :
    let m : Buffer 2 := ⟨[0x67, 0], rfl⟩
    let leds : Leds := { g := false, o := false, r := false }
    let extracted := extractUriParameters lwipHttpdMaxCgiParameters m (some 0)
    extracted.2 = [(0, none)] ∧ ctlCgiHandler extracted.1 leds extracted.2 = none ∧
      ¬∃ lamps page, ctlCgiHandler extracted.1 leds extracted.2 =
        some (leds.after (parameters lwipHttpdMaxCgiParameters (query m (some 0))), lamps, page) := by
  intro m leds extracted
  have hnull : ctlCgiHandler extracted.1 leds extracted.2 = none := by decide +kernel
  refine ⟨by decide +kernel, hnull, ?_⟩
  rintro ⟨lamps, page, hright⟩
  rw [hnull] at hright
  exact absurd hright (by simp)

end Lrndis.Cgi
