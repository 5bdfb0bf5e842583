import Lrndis.Dns.Encoded
import Lrndis.Lib.Text

/-!
# The string that `query_proc` gets

The name is stored with dots between its labels and a NUL behind it. Whether the labels
can be told from that string is up to the client: a label may be too long, and may have
dots and NULs of its own.
-/

namespace Lrndis.Dns

open Mem DnsFormat

def dot : UInt8 := 0x2E

/-- The labels that a string names. The empty string is the root, which has none. -/
def split (string : List UInt8) : List (List UInt8) :=
  if string = [] then [] else string.splitOn dot

/-- The labels of the name are as short as the format wants them, and the string gives
the name back. -/
def RoundTrips (name string : List UInt8) : Prop :=
  (∃ ls, labels name = some ls ∧ ∀ l ∈ ls, 1 ≤ l.length ∧ l.length ≤ 63) ∧
    encode (split string) = name

/-- The labels at the front of the question are short, without dots and without NULs. -/
def Plain (data : List UInt8) : Prop :=
  ∃ ls, labels data = some ls ∧ ∀ l ∈ ls, l.length ≤ 63 ∧ dot ∉ l ∧ 0 ∉ l

/-! ## Dots and NULs -/

theorem dotted_eq (ls : List (List UInt8)) : dotted ls = [dot].intercalate ls := by
  cases ls with
  | nil => rfl
  | cons l ls =>
    induction ls generalizing l with
    | nil => simp [dotted, dottedRest]
    | cons l' ls ih =>
      rw [List.intercalate_cons_cons, ← ih]
      simp [dotted, dottedRest, dot]

theorem infix_dotted {ls : List (List UInt8)} {l : List UInt8} (hl : l ∈ ls) :
    l <:+: dotted ls := by
  cases ls with
  | nil => simp at hl
  | cons first ls =>
    rcases List.mem_cons.mp hl with rfl | hl
    · exact List.infix_append' [] _ _
    · have hrest : (0x2E : UInt8) :: l <:+: dottedRest ls := by
        rw [dottedRest, List.flatMap_def]
        exact List.infix_of_mem_flatten (List.mem_map_of_mem hl)
      exact (List.suffix_cons _ l).isInfix.trans (hrest.trans (List.suffix_append _ _).isInfix)

theorem dotted_of_split (string : List UInt8) : dotted (split string) = string := by
  unfold split
  split
  · rename_i hempty
    rw [hempty]
    rfl
  · rw [dotted_eq, List.intercalate_splitOn]

theorem dot_not_mem_split {string l : List UInt8} (h : l ∈ split string) : dot ∉ l := by
  unfold split at h
  split at h
  · simp at h
  · exact Text.not_mem_of_mem_splitOn h

theorem split_dotted {ls : List (List UInt8)} (h : ∀ l ∈ ls, l ≠ [] ∧ dot ∉ l) :
    split (dotted ls) = ls := by
  cases ls with
  | nil => rfl
  | cons l ls =>
    have hne : dotted (l :: ls) ≠ [] := by
      intro hempty
      exact (h l List.mem_cons_self).1 (List.append_eq_nil_iff.mp hempty).1
    rw [split, if_neg hne, dotted_eq, List.splitOn_intercalate dot (fun l hl => (h l hl).2)]
    exact List.cons_ne_nil l ls

/-! ## When the string gives the name back -/

theorem split_eq_iff {ls : List (List UInt8)} (h : ∀ l ∈ ls, l ≠ []) :
    split ((dotted ls).takeWhile (· ≠ 0)) = ls ↔ ∀ l ∈ ls, dot ∉ l ∧ 0 ∉ l := by
  constructor
  · intro hsplit l hl
    refine ⟨dot_not_mem_split (hsplit ▸ hl), fun hzero => ?_⟩
    have hstring := dotted_of_split ((dotted ls).takeWhile (· ≠ 0))
    rw [hsplit] at hstring
    have hmem := (infix_dotted hl).subset hzero
    rw [hstring] at hmem
    simpa using List.mem_takeWhile_imp hmem
  · intro hplain
    rw [Text.takeWhile_of_not_mem (dotted_ne_zero fun l hl => (hplain l hl).2)]
    exact split_dotted fun l hl => ⟨h l hl, (hplain l hl).1⟩

theorem roundTrips_encode_iff {ls : List (List UInt8)} {string : List UInt8}
    (hls : ∀ l ∈ ls, 1 ≤ l.length ∧ l.length < dnsMaxHostNameLen)
    (hstring : string = (dotted ls).takeWhile (· ≠ 0)) (hlen : string.length < 256) :
    RoundTrips (encode ls) string ↔ ∀ l ∈ ls, l.length ≤ 63 ∧ dot ∉ l ∧ 0 ∉ l := by
  have h128 : dnsMaxHostNameLen = 128 := rfl
  have hshort : ∀ l ∈ ls, 1 ≤ l.length ∧ l.length < 256 := fun l hl =>
    ⟨(hls l hl).1, by have := (hls l hl).2; omega⟩
  have hlabels : labels (encode ls) = some ls := by
    rw [← List.append_nil (encode ls)]
    exact labels_encode ls [] hshort
  have hpieces : ∀ l ∈ split string, l.length < 256 := by
    intro l hl
    have hle := (infix_dotted hl).length_le
    rw [dotted_of_split] at hle
    omega
  have hsplit : split string = ls ↔ ∀ l ∈ ls, dot ∉ l ∧ 0 ∉ l := by
    rw [hstring]
    apply split_eq_iff
    rintro l hl rfl
    exact Nat.not_succ_le_zero 0 (hls [] hl).1
  constructor
  · rintro ⟨⟨ls', hls', hle⟩, hcode⟩ l hl
    rw [hlabels] at hls'
    obtain rfl : ls = ls' := Option.some.inj hls'
    have hsame := encode_injective hpieces (fun l hl => (hshort l hl).2) hcode
    exact ⟨(hle l hl).2, hsplit.mp hsame l hl⟩
  · intro hplain
    refine ⟨⟨ls, hlabels, fun l hl => ⟨(hls l hl).1, (hplain l hl).1⟩⟩, ?_⟩
    rw [hsplit.mpr fun l hl => (hplain l hl).2]

theorem parse_name {data : List UInt8} {size n : Nat} {query : DnsQuery}
    (hsize : size ≤ data.length) (hn : (parseNextQuery data size query).1 = (n : Nat)) :
    ∃ ls, labels data = some ls ∧ data.take (n - 4) = encode ls ∧
      (∀ l ∈ ls, 1 ≤ l.length ∧ l.length < dnsMaxHostNameLen) ∧
      cString (parseNextQuery data size query).2.name = (dotted ls).takeWhile (· ≠ 0) := by
  obtain ⟨n', ls, rest, hn', hparsed⟩ := parseNextQuery_ok data size query hsize (by omega)
  have hcount := hparsed.count
  refine ⟨ls, ?_, ?_, hparsed.lengths, hparsed.name⟩
  · rw [hparsed.wire]
    apply labels_encode
    intro l hl
    have h128 : dnsMaxHostNameLen = 128 := rfl
    have := hparsed.lengths l hl
    omega
  · rw [hparsed.wire, List.take_left' (by omega)]

theorem cString_length (b : Buffer dnsMaxHostNameLen) : (cString b).length ≤ dnsMaxHostNameLen := by
  rw [← Buffer.length_bytes b]
  exact (List.takeWhile_prefix _).length_le

theorem roundTrips_iff_plain {data : List UInt8} {size n : Nat} {query : DnsQuery}
    (hsize : size ≤ data.length) (hn : (parseNextQuery data size query).1 = (n : Nat)) :
    RoundTrips (data.take (n - 4)) (cString (parseNextQuery data size query).2.name) ↔
      Plain data := by
  obtain ⟨ls, hlabels, hname, hls, hstring⟩ := parse_name hsize hn
  have hlen := cString_length (parseNextQuery data size query).2.name
  rw [hname, roundTrips_encode_iff hls hstring (Nat.lt_of_le_of_lt hlen (by decide)), Plain,
    hlabels]
  simp

/-- An accepted name can be told from its string exactly if its labels are plain, and two
such names have different strings. -/
theorem name_roundTrips_iff (data : List UInt8) (size : Nat) (query : DnsQuery) (n : Nat)
    (hsize : size ≤ data.length) (hn : (parseNextQuery data size query).1 = (n : Nat)) :
    (RoundTrips (data.take (n - 4)) (cString (parseNextQuery data size query).2.name) ↔
      Plain data) ∧
    ∀ (data' : List UInt8) (size' : Nat) (query' : DnsQuery) (n' : Nat),
      size' ≤ data'.length → (parseNextQuery data' size' query').1 = (n' : Nat) →
      Plain data → Plain data' →
      cString (parseNextQuery data size query).2.name =
        cString (parseNextQuery data' size' query').2.name →
      data.take (n - 4) = data'.take (n' - 4) := by
  refine ⟨roundTrips_iff_plain hsize hn, ?_⟩
  intro data' size' query' n' hsize' hn' hplain hplain' hsame
  have hback := ((roundTrips_iff_plain hsize hn).mpr hplain).2
  have hback' := ((roundTrips_iff_plain hsize' hn').mpr hplain').2
  rw [← hback, ← hback', hsame]

theorem name_roundTrips_iff_runStm :
    (RoundTrips (encode [[0x72, 0x75, 0x6E], [0x73, 0x74, 0x6D]])
        (cString (parseNextQuery (encode [[0x72, 0x75, 0x6E], [0x73, 0x74, 0x6D]] ++ [0, 1, 0, 1])
          13 .zero).2.name) ↔
      Plain (encode [[0x72, 0x75, 0x6E], [0x73, 0x74, 0x6D]] ++ [0, 1, 0, 1])) := by
  have hn : (parseNextQuery (encode [[0x72, 0x75, 0x6E], [0x73, 0x74, 0x6D]] ++ [0, 1, 0, 1])
      13 .zero).1 = (13 : Nat) := by
    decide +kernel
  exact (name_roundTrips_iff _ 13 .zero 13 (by decide) hn).1

/-- A label with a dot, one with a NUL and one of 64 bytes. The first gives the string that
two labels give, too. -/
theorem name_lost :
    let oneLabel := encode [[0x72, 0x75, 0x6E, dot, 0x73, 0x74, 0x6D]] ++ [0, 1, 0, 1]
    let twoLabels := encode [[0x72, 0x75, 0x6E], [0x73, 0x74, 0x6D]] ++ [0, 1, 0, 1]
    let withNul := encode [[0x72, 0x75, 0x6E, 0]] ++ [0, 1, 0, 1]
    let long := encode [List.replicate 64 0x61] ++ [0, 1, 0, 1]
    ((parseNextQuery oneLabel 13 .zero).1 = 13 ∧ (parseNextQuery twoLabels 13 .zero).1 = 13 ∧
      oneLabel.take 9 ≠ twoLabels.take 9 ∧
      cString (parseNextQuery oneLabel 13 .zero).2.name =
        cString (parseNextQuery twoLabels 13 .zero).2.name ∧
      ¬RoundTrips (oneLabel.take 9) (cString (parseNextQuery oneLabel 13 .zero).2.name)) ∧
    ((parseNextQuery withNul 10 .zero).1 = 10 ∧
      ¬RoundTrips (withNul.take 6) (cString (parseNextQuery withNul 10 .zero).2.name)) ∧
    (parseNextQuery long 70 .zero).1 = 70 ∧
      ¬RoundTrips (long.take 66) (cString (parseNextQuery long 70 .zero).2.name) := by
  intro oneLabel twoLabels withNul long
  have hone : (parseNextQuery oneLabel 13 .zero).1 = (13 : Nat) := by decide +kernel
  have hnul : (parseNextQuery withNul 10 .zero).1 = (10 : Nat) := by decide +kernel
  have hlong : (parseNextQuery long 70 .zero).1 = (70 : Nat) := by decide +kernel
  have hlabels : labels long = some [List.replicate 64 0x61] :=
    labels_encode _ [0, 1, 0, 1] (by decide)
  refine ⟨⟨hone, by decide +kernel, by decide, by decide +kernel, ?_⟩, ⟨hnul, ?_⟩, hlong, ?_⟩
  · rintro ⟨-, hback⟩
    exact absurd hback (by decide +kernel)
  · rintro ⟨-, hback⟩
    exact absurd hback (by decide +kernel)
  · intro hback
    obtain ⟨ls, hls, hplain⟩ := (roundTrips_iff_plain (by decide) hlong).mp hback
    rw [hlabels] at hls
    obtain rfl := Option.some.inj hls
    exact absurd (hplain _ List.mem_cons_self).1 (by decide)

end Lrndis.Dns
