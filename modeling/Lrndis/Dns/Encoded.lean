import Lrndis.Dns.Parse

/-!
# `parse_next_query` undoes the encoding

Of a name of at most 127 characters. A longer one is refused, and so is a question that
is cut off.
-/

namespace Lrndis.Dns

open Mem DnsFormat

def encodeQuestion (ls : List (List UInt8)) (type class_ : UInt16) : List UInt8 :=
  encode ls ++ bytes16 type ++ bytes16 class_

def Cursor.text (c : Cursor) (ls : List (List UInt8)) : List UInt8 :=
  if c.lables > 0 then dottedRest ls else dotted ls

theorem text_next (data : List UInt8) (c : Cursor) (l : List UInt8) (ls : List (List UInt8)) :
    (c.next data l.length).len + ((c.next data l.length).text ls).length =
      c.len + (c.text (l :: ls)).length := by
  unfold Cursor.text Cursor.next Cursor.dot
  rw [if_pos (Nat.succ_pos _)]
  split
  · simp only [dottedRest, List.flatMap_cons, List.length_append, List.length_cons]
    omega
  · simp only [dotted, List.length_append]
    omega

theorem parseLabels_round {data : List UInt8} {c : Cursor} {n : Nat}
    (hbyte : (byteAt data c.ptr).toNat = n) (hpos : 1 ≤ n) (hsize : n < c.size)
    (hlen : c.len < dnsMaxHostNameLen) :
    parseLabels data c =
      if c.dot.len + n ≥ dnsMaxHostNameLen then .error (-2, c.dot.name)
      else parseLabels data (c.next data n) := by
  rw [parseLabels, if_neg (by omega)]
  simp only [hbyte]
  rw [if_neg (by omega), if_neg (fun hfull => Nat.ne_of_lt hlen hfull.2), if_neg (by omega)]
  rfl

theorem parseLabels_encode (data : List UInt8) (ls : List (List UInt8)) (rest : List UInt8)
    (c : Cursor) (hls : ∀ l ∈ ls, 1 ≤ l.length ∧ l.length < 256)
    (hwire : data.drop c.ptr = encode ls ++ rest) (hsize : (encode ls).length ≤ c.size)
    (hlen : c.len < dnsMaxHostNameLen) :
    if c.len + (c.text ls).length < dnsMaxHostNameLen then ∃ c', parseLabels data c = .ok c'
    else ∃ name, parseLabels data c = .error (-2, name) := by
  induction ls generalizing c with
  | nil =>
    have hbyte : byteAt data c.ptr = 0 := by
      rw [← Nat.add_zero c.ptr, ← byteAt_drop, hwire]
      rfl
    have hne : c.size ≠ 0 := by
      simp only [encode, List.flatMap_nil, List.nil_append, List.length_singleton] at hsize
      omega
    have htext : c.text [] = [] := by
      unfold Cursor.text
      split <;> rfl
    rw [htext, List.length_nil, Nat.add_zero, if_pos hlen, parseLabels, if_neg hne, hbyte]
    exact ⟨_, rfl⟩
  | cons l ls ih =>
    obtain ⟨hpos, hle⟩ := hls l List.mem_cons_self
    have hbyte : (byteAt data c.ptr).toNat = l.length := by
      rw [← Nat.add_zero c.ptr, ← byteAt_drop, hwire, encode_cons]
      exact toNat_length l (by omega)
    have hdrop : data.drop (c.ptr + 1 + l.length) = encode ls ++ rest := by
      rw [Nat.add_assoc, ← List.drop_drop, hwire, encode_cons, List.append_assoc,
        List.drop_left' (by rw [List.length_cons, Nat.add_comm])]
    have hcode := length_encode_cons l ls
    have htext := text_next data c l ls
    rw [parseLabels_round hbyte hpos (by omega) hlen, ← htext]
    rcases Nat.lt_or_ge (c.dot.len + l.length) dnsMaxHostNameLen with hroom | hfull
    · rw [if_neg (Nat.not_le.mpr hroom)]
      exact ih _ (fun l' hl' => hls l' (List.mem_cons_of_mem _ hl')) hdrop
        (by simp only [Cursor.next]; omega) hroom
    · -- The label is the first that does not fit, and the later ones only add to it.
      rw [if_pos hfull, if_neg (by simp only [Cursor.next]; omega)]
      exact ⟨_, rfl⟩

theorem encode_unique {ls ls' : List (List UInt8)} {rest rest' : List UInt8}
    (h : ∀ l ∈ ls, 1 ≤ l.length ∧ l.length < 256) (h' : ∀ l ∈ ls', 1 ≤ l.length ∧ l.length < 256)
    (heq : encode ls ++ rest = encode ls' ++ rest') : ls = ls' := by
  have hlabels := labels_encode ls rest h
  rw [heq, labels_encode ls' rest' h'] at hlabels
  exact (Option.some.inj hlabels).symm

theorem labels_unique {ls ls' : List (List UInt8)} {rest rest' : List UInt8}
    (hls : ∀ l ∈ ls, 1 ≤ l.length ∧ l.length < 256)
    (hls' : ∀ l ∈ ls', 1 ≤ l.length ∧ l.length < dnsMaxHostNameLen)
    (heq : encode ls ++ rest = encode ls' ++ rest') : ls = ls' := by
  apply encode_unique hls _ heq
  intro l hl
  have h128 : dnsMaxHostNameLen = 128 := rfl
  have := hls' l hl
  omega

def startOf (query : DnsQuery) (data : List UInt8) : Cursor :=
  { name := query.name, ptr := 0, size := data.length, len := 0, lables := 0 }

section Name

variable {data : List UInt8} {ls : List (List UInt8)} {rest : List UInt8} (query : DnsQuery)

theorem parseLabels_name (hls : ∀ l ∈ ls, 1 ≤ l.length ∧ l.length < 256)
    (hwire : data = encode ls ++ rest) :
    if (dotted ls).length ≤ 127 then ∃ c, parseLabels data (startOf query data) = .ok c
    else ∃ name, parseLabels data (startOf query data) = .error (-2, name) := by
  have h128 : dnsMaxHostNameLen = 128 := rfl
  have htext : (startOf query data).len + ((startOf query data).text ls).length =
      (dotted ls).length := by
    simp [startOf, Cursor.text]
  have hsize : (encode ls).length ≤ (startOf query data).size := by
    change _ ≤ data.length
    rw [hwire, List.length_append]
    omega
  have hparse := parseLabels_encode data ls _ (startOf query data) hls hwire hsize
    (show 0 < dnsMaxHostNameLen by omega)
  rw [htext] at hparse
  split at hparse
  · rw [if_pos (by omega)]
    exact hparse
  · rw [if_neg (by omega)]
    exact hparse

theorem cursor_name (hls : ∀ l ∈ ls, 1 ≤ l.length ∧ l.length < 256)
    (hwire : data = encode ls ++ rest) {c : Cursor}
    (hc : parseLabels data (startOf query data) = .ok c) :
    c.ptr = (encode ls).length ∧ c.size = rest.length ∧ c.len = (dotted ls).length ∧
      c.len < dnsMaxHostNameLen ∧ c.name.bytes.take c.len = dotted ls := by
  obtain ⟨ls', hlengths, hwire', hptr, hsize, hroom, hname⟩ :=
    parseLabels_ok _ _ c hc (by simp [startOf]) (show 0 < dnsMaxHostNameLen by decide)
  obtain rfl : ls = ls' := by
    apply labels_unique hls hlengths
    rw [← hwire]
    exact hwire'
  simp only [startOf, Nat.zero_add, gt_iff_lt, Nat.lt_irrefl, if_false, List.take_zero,
    List.nil_append] at hptr hsize hname
  have hlength := congrArg List.length hwire
  rw [List.length_append] at hlength
  refine ⟨hptr, by omega, ?_, hroom, hname⟩
  rw [← hname, List.length_take, Buffer.length_bytes]
  omega

/-- A name is accepted exactly if it has room, whatever the four bytes behind it are. -/
theorem parse_accepts_iff (hls : ∀ l ∈ ls, 1 ≤ l.length ∧ l.length < 256)
    (hwire : data = encode ls ++ rest) (hrest : 4 ≤ rest.length) :
    ¬ (parseNextQuery data data.length query).1 < 0 ↔ (dotted ls).length ≤ 127 := by
  have hparse := parseLabels_name query hls hwire
  rcases Nat.lt_or_ge 127 (dotted ls).length with hlong | hfit
  · rw [if_neg (Nat.not_le.mpr hlong)] at hparse
    obtain ⟨name, hname⟩ := hparse
    unfold startOf at hname
    simp only [parseNextQuery, hname]
    omega
  · rw [if_pos hfit] at hparse
    obtain ⟨c, hc⟩ := hparse
    obtain ⟨-, hsize, -⟩ := cursor_name query hls hwire hc
    unfold startOf at hc
    simp only [parseNextQuery, hc]
    rw [if_neg (by omega)]
    simp only
    omega

end Name

section Question

variable {ls : List (List UInt8)} (type class_ : UInt16) (trailing : List UInt8) (query : DnsQuery)

theorem question_split : encodeQuestion ls type class_ ++ trailing =
    encode ls ++ (bytes16 type ++ (bytes16 class_ ++ trailing)) := by
  simp only [encodeQuestion, List.append_assoc]

theorem parse_fitting (hls : ∀ l ∈ ls, 1 ≤ l.length ∧ l.length < 256)
    (hfit : (dotted ls).length ≤ 127) :
    let data := encodeQuestion ls type class_ ++ trailing
    let r := parseNextQuery data data.length query
    r.1 = (encodeQuestion ls type class_).length ∧
      r.2.name.bytes.take ((dotted ls).length + 1) = dotted ls ++ [0] ∧
      r.2.type = type ∧ r.2.class_ = class_ := by
  intro data r
  have hparse := parseLabels_name query hls (question_split type class_ trailing)
  rw [if_pos hfit] at hparse
  obtain ⟨c, hc⟩ := hparse
  obtain ⟨hptr, hsize, hlen, hroom, hname⟩ :=
    cursor_name query hls (question_split type class_ trailing) hc
  simp only [List.length_append, bytes16_length] at hsize
  have hr : r = (((c.ptr + 4 : Nat) : Int), {
      name := c.name.setByte c.len 0
      type := word16At data c.ptr
      class_ := word16At data (c.ptr + 2) }) := by
    unfold startOf at hc
    simp only [r, data, parseNextQuery, hc]
    rw [if_neg (by omega)]
  have hdrop : data.drop c.ptr = bytes16 type ++ (bytes16 class_ ++ trailing) := by
    unfold data
    rw [hptr, question_split, List.drop_left' rfl]
  have hskip : data.drop (c.ptr + 2) = bytes16 class_ ++ trailing := by
    rw [← List.drop_drop, hdrop]
    rfl
  rw [hr]
  refine ⟨?_, ?_, ?_, ?_⟩
  · simp only [encodeQuestion, List.length_append, bytes16_length, hptr]
  · simp only
    rw [← hlen, Buffer.take_setByte _ _ _ hroom, hname]
  · have htype := word16At_bytes16 type (bytes16 class_ ++ trailing)
    rwa [← hdrop, word16At_drop] at htype
  · have hclass := word16At_bytes16 class_ trailing
    rwa [← hskip, word16At_drop] at hclass

theorem parse_long (hls : ∀ l ∈ ls, 1 ≤ l.length ∧ l.length < 256)
    (hlong : 127 < (dotted ls).length) :
    let data := encodeQuestion ls type class_ ++ trailing
    (parseNextQuery data data.length query).1 = -2 := by
  intro data
  have hparse := parseLabels_name query hls (question_split type class_ trailing)
  rw [if_neg (Nat.not_le.mpr hlong)] at hparse
  obtain ⟨name, hname⟩ := hparse
  unfold startOf at hname
  simp only [data, parseNextQuery, hname]

theorem parse_cut (hls : ∀ l ∈ ls, 1 ≤ l.length ∧ l.length < 256) (k : Nat)
    (hk : k < (encodeQuestion ls type class_).length) (after : List UInt8) :
    (parseNextQuery ((encodeQuestion ls type class_).take k ++ after) k query).1 < 0 := by
  by_contra hok
  have hlen : ((encodeQuestion ls type class_).take k).length = k := by
    rw [List.length_take]
    omega
  obtain ⟨n, ls', rest, -, hparsed⟩ := parseNextQuery_ok _ k query
    (by rw [List.length_append, hlen]; omega) hok
  have hlengths := hparsed.lengths
  have hcount := hparsed.count
  have hsize := hparsed.size
  have hfront : (encodeQuestion ls type class_).take k =
      encode ls' ++ rest.take (k - (encode ls').length) := by
    have hleft : ((encodeQuestion ls type class_).take k ++ after).take k =
        (encodeQuestion ls type class_).take k := List.take_left' hlen
    rw [← hleft, hparsed.wire, List.take_append, List.take_of_length_le (by omega)]
  have hsame : ls = ls' := by
    apply labels_unique hls hlengths
    rw [← List.append_assoc (encode ls'), ← hfront, List.take_append_drop]
    exact (List.append_assoc ..).symm
  rw [encodeQuestion, List.length_append, List.length_append, hsame] at hk
  simp only [bytes16_length] at hk
  omega

end Question

/-! ## The round trip -/

theorem dotted_ne_zero {ls : List (List UInt8)} (h : ∀ l ∈ ls, 0 ∉ l) : 0 ∉ dotted ls := by
  have hrest : ∀ ls : List (List UInt8), (∀ l ∈ ls, 0 ∉ l) → 0 ∉ dottedRest ls := by
    intro ls h hmem
    obtain ⟨l, hl, hzero⟩ := List.mem_flatMap.mp hmem
    rcases List.mem_cons.mp hzero with hdot | hzero
    · exact absurd hdot (by decide)
    · exact h l hl hzero
  cases ls with
  | nil => simp [dotted]
  | cons l ls =>
    rw [dotted, List.mem_append, not_or]
    exact ⟨h l List.mem_cons_self, hrest ls fun l' hl' => h l' (List.mem_cons_of_mem _ hl')⟩

theorem cString_of_take {b : Buffer dnsMaxHostNameLen} {text : List UInt8}
    (htake : b.bytes.take (text.length + 1) = text ++ [0]) (hzero : 0 ∉ text) :
    cString b = text := by
  have hsplit := List.take_append_drop (text.length + 1) b.bytes
  rw [htake] at hsplit
  rw [cString, ← hsplit, List.append_assoc, List.takeWhile_append_of_pos]
  · simp
  · intro x hx
    rw [decide_eq_true_iff]
    rintro rfl
    exact hzero hx

/-- What is encoded with a name of at most 127 characters is read back, whatever follows
it. A longer name has no room, and a question that is cut off is no question. -/
theorem parse_encoded (ls : List (List UInt8))
    (hls : ∀ l ∈ ls, 1 ≤ l.length ∧ l.length ≤ 63 ∧ 0 ∉ l) (type class_ : UInt16)
    (trailing : List UInt8) (query : DnsQuery) :
    let question := encodeQuestion ls type class_
    let data := question ++ trailing
    let r := parseNextQuery data data.length query
    ((dotted ls).length ≤ 127 →
      r.1 = question.length ∧
        r.2.name.bytes.take ((dotted ls).length + 1) = dotted ls ++ [0] ∧
        cString r.2.name = dotted ls ∧ r.2.type = type ∧ r.2.class_ = class_) ∧
    (127 < (dotted ls).length → r.1 = -2) ∧
    ∀ k < question.length, ∀ after, (parseNextQuery (question.take k ++ after) k query).1 < 0 := by
  intro question data r
  have hlengths : ∀ l ∈ ls, 1 ≤ l.length ∧ l.length < 256 := fun l hl =>
    ⟨(hls l hl).1, Nat.lt_of_le_of_lt (hls l hl).2.1 (by decide)⟩
  refine ⟨?_, ?_, ?_⟩
  · intro hfit
    obtain ⟨hcount, hname, htype, hclass⟩ :=
      parse_fitting type class_ trailing query hlengths hfit
    have hzero := dotted_ne_zero fun l hl => (hls l hl).2.2
    exact ⟨hcount, hname, cString_of_take hname hzero, htype, hclass⟩
  · exact parse_long type class_ trailing query hlengths
  · intro k hk after
    exact parse_cut type class_ query hlengths k hk after

theorem parse_encoded_runStm :
    let data := encodeQuestion [[0x72, 0x75, 0x6E], [0x73, 0x74, 0x6D]] 0x0100 0x0100 ++ [0]
    (parseNextQuery data data.length .zero).1 = 13 ∧
      cString (parseNextQuery data data.length .zero).2.name =
        [0x72, 0x75, 0x6E, 0x2E, 0x73, 0x74, 0x6D] := by
  have h := (parse_encoded [[0x72, 0x75, 0x6E], [0x73, 0x74, 0x6D]] (by decide) 0x0100 0x0100 [0]
    .zero).1 (by decide)
  exact ⟨h.1, h.2.2.1⟩

end Lrndis.Dns
