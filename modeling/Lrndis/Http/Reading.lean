import Lrndis.Http.Scan

/-!
# How `http_send_data_ssi` finds tags

What `http_write` does with what it is given, and the rounds of the loop that look for a
tag: they read as the scanner does.
-/

namespace Lrndis.Http

open Mem Template

theorem slice_split (l : List UInt8) (off n k : Nat) (h : n ≤ k) :
    slice l off k = slice l off n ++ slice l (off + n) (k - n) := by
  obtain ⟨m, rfl⟩ := Nat.exists_eq_add_of_le h
  rw [slice, slice, slice, List.take_add, List.drop_drop, Nat.add_sub_cancel_left]

theorem slice_snoc (l : List UInt8) (off n : Nat) (h : off + n < l.length) :
    slice l off (n + 1) = slice l off n ++ [byteAt l (off + n)] := by
  rw [slice_split l off n (n + 1) (Nat.le_succ n), Nat.add_sub_cancel_left, slice,
    slice, drop_eq_byteAt_cons l _ h]
  rfl

theorem slice_next (l : List UInt8) {a b : Nat} (hab : a ≤ b) (hb : b < l.length) :
    slice l a (b + 1 - a) = slice l a (b - a) ++ [byteAt l b] := by
  rw [show b + 1 - a = b - a + 1 by omega, slice_snoc l a (b - a) (by omega),
    show a + (b - a) = b by omega]

theorem slice_join (l : List UInt8) {a b c : Nat} (hab : a ≤ b) (hbc : b ≤ c) :
    slice l a (c - a) = slice l a (b - a) ++ slice l b (c - b) := by
  rw [slice_split l a (b - a) (c - a) (by omega), show a + (b - a) = b by omega,
    show c - a - (b - a) = c - b by omega]

theorem slice_zero (l : List UInt8) (off : Nat) : slice l off 0 = [] := List.take_zero

theorem u16_of_lt {n : Nat} (h : n < 65536) : u16 n = n := by
  unfold u16
  omega

variable {W : Type} {env : Env W} {data : List UInt8}

/-! ## `http_write` -/

/-- What comes out of a write: what TCP took is the beginning of what was to be sent. -/
structure WroteSome (ptr : List UInt8) (len : Nat) (r : Written W) : Prop where
  len_le : r.len ≤ len
  len_pos : len ≠ 0 → r.len ≠ 0
  output_eq : output r.acts = ptr.take r.len
  asked_eq : asked r.acts = []

theorem httpWriteLoop_ok {w : W} {ptr : List UInt8} {len : Nat} (hlen : len ≠ 0)
    (h : (httpWriteLoop env w ptr len).err = .ok) :
    WroteSome ptr len (httpWriteLoop env w ptr len) := by
  induction len using Nat.strongRecOn generalizing w with
  | ind len ih =>
    rw [httpWriteLoop] at h ⊢
    split at h
    · exact ⟨Nat.le_refl len, fun _ => hlen, by simp [output], rfl⟩
    · split at h
      · -- TCP has no memory for so much, and half of it is tried.
        rename_i w _ hless
        rw [dif_pos hless]
        have hlt := lessToSend_lt env hless
        have hnext := ih _ hlt (by omega) h
        exact ⟨Nat.le_trans hnext.len_le (Nat.le_of_lt hlt), fun _ => hnext.len_pos (by omega),
          hnext.output_eq, hnext.asked_eq⟩
      · simp at h
    · rename_i hok _ _
      exact absurd h hok

theorem httpWrite_ok {w : W} {ptr : List UInt8} {len : Nat}
    (h : (httpWrite env w ptr len).err = .ok) : WroteSome ptr len (httpWrite env w ptr len) := by
  rw [httpWrite] at h ⊢
  split
  · exact ⟨by simp, fun hne => absurd ‹len = 0› hne, by simp [output], rfl⟩
  · rename_i hne
    rw [if_neg hne] at h
    exact httpWriteLoop_ok hne h

/-! ## Reading tags -/

def SsiState.scan (ssi : SsiState) : Option Scan :=
  match ssi.tagState with
  | .none | .sending => none
  | .leadin =>
    some (if ssi.tagIndex = gPcTagLeadIn.length then .name [] else .leadin ssi.tagIndex)
  | .found => some (.name (ssi.tagName.bytes.take ssi.tagIndex))
  | .leadout => some (.leadout (ssi.tagName.bytes.take ssi.tagNameLen) ssi.tagIndex)

def reading (data : List UInt8) (file : Nat) (ssi : SsiState) : Reading Scan UInt8 :=
  match ssi.scan with
  | none => ⟨slice data file (ssi.parsed - file), none⟩
  | some s =>
    inside (slice data file (ssi.tagStarted - file)) s
      (slice data ssi.tagStarted (ssi.parsed - ssi.tagStarted))

theorem reading_none {file : Nat} {ssi : SsiState} (h : ssi.scan = none) :
    reading data file ssi = ⟨slice data file (ssi.parsed - file), none⟩ := by
  rw [reading, h]

theorem reading_some {file : Nat} {ssi : SsiState} {s : Scan} (h : ssi.scan = some s) :
    reading data file ssi = inside (slice data file (ssi.tagStarted - file)) s
      (slice data ssi.tagStarted (ssi.parsed - ssi.tagStarted)) := by
  rw [reading, h]

theorem scan_found {ssi : SsiState} (h : ssi.tagState = .found) :
    ssi.scan = some (.name (ssi.tagName.bytes.take ssi.tagIndex)) := by
  simp only [SsiState.scan, h]

theorem scan_leadout {ssi : SsiState} (h : ssi.tagState = .leadout) :
    ssi.scan = some (.leadout (ssi.tagName.bytes.take ssi.tagNameLen) ssi.tagIndex) := by
  simp only [SsiState.scan, h]

def SsiState.InRange (ssi : SsiState) : Prop :=
  match ssi.tagState with
  | .none | .sending => True
  | .leadin => 1 ≤ ssi.tagIndex ∧ ssi.tagIndex ≤ gPcTagLeadIn.length
  | .found => ssi.tagIndex ≤ lwipHttpdMaxTagNameLen
  | .leadout =>
    ssi.tagIndex < gPcTagLeadOut.length ∧ 1 ≤ ssi.tagNameLen ∧
      ssi.tagNameLen ≤ lwipHttpdMaxTagNameLen ∧ ssi.tagName.byte ssi.tagNameLen = 0

/-- Looking for a tag: what may be one has not been sent. -/
structure Scanning (data : List UInt8) (file : Nat) (ssi : SsiState) : Prop where
  state : ssi.tagState ≠ .sending
  file_le : file ≤ ssi.parsed
  parse_eq : ssi.parsed + ssi.parseLeft = data.length
  held : ssi.scan ≠ none → file ≤ ssi.tagStarted ∧ ssi.tagStarted < ssi.parsed
  range : ssi.InRange

/-- What a round may take: one for each character, and a few for each tag. -/
def SsiState.work (ssi : SsiState) : Nat :=
  65540 * ssi.parseLeft +
    match ssi.tagState with
    | .leadin => if ssi.tagIndex = gPcTagLeadIn.length then 1 else 0
    | .sending => ssi.tagInsertLen - ssi.tagIndex + 1
    | _ => 0

structure Scanned (data : List UInt8) (file : Nat) (ssi ssi' : SsiState) : Prop where
  scanning : Scanning data file ssi'
  read : (ssi'.parsed = ssi.parsed ∧ reading data file ssi' = reading data file ssi) ∨
    (ssi'.parsed = ssi.parsed + 1 ∧
      ssiScanner.read (reading data file ssi) (byteAt data ssi.parsed) = ([], reading data file ssi'))
  work_lt : ssi'.work < ssi.work

section Scan

variable {file : Nat} {ssi ssi' : SsiState} {sc t : Scan}

structure Advanced (ssi ssi' : SsiState) : Prop where
  parsed_eq : ssi'.parsed = ssi.parsed + 1
  left_eq : ssi'.parseLeft = ssi.parseLeft - 1

theorem parsed_lt (h : Scanning data file ssi) (hleft : ssi.parseLeft ≠ 0) :
    ssi.parsed < data.length := by
  have := h.parse_eq
  omega

theorem work_lt_of_advanced (hleft : ssi.parseLeft ≠ 0) (hadv : Advanced ssi ssi')
    (hstate : ssi'.tagState ≠ .sending) : ssi'.work < ssi.work := by
  have hterm : (match ssi'.tagState with
      | .leadin => if ssi'.tagIndex = gPcTagLeadIn.length then 1 else 0
      | .sending => ssi'.tagInsertLen - ssi'.tagIndex + 1
      | _ => 0) ≤ 1 := by
    split
    · split <;> omega
    · exact absurd ‹_› hstate
    · omega
  have hadv' := hadv.left_eq
  simp only [SsiState.work] at hterm ⊢
  omega

theorem scanned_next (hleft : ssi.parseLeft ≠ 0)
    (hadv : Advanced ssi ssi') (hscan : Scanning data file ssi')
    (hread : ssiScanner.read (reading data file ssi) (byteAt data ssi.parsed) =
      ([], reading data file ssi')) : Scanned data file ssi ssi' := by
  exact ⟨hscan, Or.inr ⟨hadv.parsed_eq, hread⟩, work_lt_of_advanced hleft hadv hscan.state⟩

theorem pieces_of_scanned (h : Scanning data file ssi) (hleft : ssi.parseLeft ≠ 0)
    (hscan : Scanned data file ssi ssi') :
    ssiScanner.pieces (reading data file ssi') (data.drop ssi'.parsed) =
      ssiScanner.pieces (reading data file ssi) (data.drop ssi.parsed) := by
  rcases hscan.read with ⟨hparsed, hreading⟩ | ⟨hparsed, hread⟩
  · rw [hparsed, hreading]
  · rw [drop_eq_byteAt_cons data ssi.parsed (parsed_lt h hleft), Scanner.pieces, hread, hparsed]
    rfl

theorem scanned_more (h : Scanning data file ssi) (hleft : ssi.parseLeft ≠ 0)
    (hadv : Advanced ssi ssi') (hstate : ssi'.tagState ≠ .sending) (hrange : ssi'.InRange)
    (hstart : ssi'.tagStarted = ssi.tagStarted) (hsc : ssi.scan = some sc)
    (hsc' : ssi'.scan = some t) (hnext : scanNext sc (byteAt data ssi.parsed) = .more t) :
    Scanned data file ssi ssi' := by
  have hlt := parsed_lt h hleft
  have hparse := h.parse_eq
  obtain ⟨hfile, hopen⟩ := h.held (by simp [hsc])
  have hadv1 := hadv.parsed_eq
  have hadv2 := hadv.left_eq
  refine scanned_next hleft hadv ⟨hstate, by omega, by omega, fun _ => by omega, hrange⟩ ?_
  rw [reading_some hsc, reading_some hsc', read_more hnext, hstart, hadv.parsed_eq,
    slice_next data (Nat.le_of_lt hopen) hlt]

theorem scanned_text (h : Scanning data file ssi) (hleft : ssi.parseLeft ≠ 0)
    (hadv : Advanced ssi ssi') (hstate : ssi'.tagState = .none) (hsc : ssi.scan = some sc)
    (hnext : scanNext sc (byteAt data ssi.parsed) = .text) : Scanned data file ssi ssi' := by
  have hlt := parsed_lt h hleft
  have hparse := h.parse_eq
  obtain ⟨hfile, hopen⟩ := h.held (by simp [hsc])
  have hadv1 := hadv.parsed_eq
  have hadv2 := hadv.left_eq
  have hsc' : ssi'.scan = none := by
    simp only [SsiState.scan, hstate]
  refine scanned_next hleft hadv
    ⟨by simp [hstate], by omega, by omega, fun hne => absurd hsc' hne, ?_⟩ ?_
  · simp only [SsiState.InRange, hstate]
  · rw [reading_some hsc, reading_none hsc', read_text hnext, hadv.parsed_eq,
      slice_next data h.file_le hlt, slice_join data hfile (Nat.le_of_lt hopen)]

end Scan

/-! ## The rounds that look for a tag -/

section Rounds

variable {s : Sending W} {file : Nat}

def ScanRound (data : List UInt8) (file : Nat) (s s' : Sending W) : Prop :=
  ∃ ssi, s' = { s with ssi := ssi } ∧ Scanned data file s.ssi ssi

theorem advanced_next (ssi ssi' : SsiState) (hp : ssi'.parsed = ssi.parsed)
    (hl : ssi'.parseLeft = ssi.parseLeft) : Advanced ssi ssi'.next :=
  ⟨by rw [SsiState.next, hp], by rw [SsiState.next, hl]⟩

theorem tagNone_spec (h : Scanning data file s.ssi) (hleft : s.ssi.parseLeft ≠ 0)
    (hstate : s.ssi.tagState = .none) : ScanRound data file s (s.tagNone data) := by
  have hlt := parsed_lt h hleft
  have hparse := h.parse_eq
  have hfile := h.file_le
  have hsc : s.ssi.scan = none := by
    simp only [SsiState.scan, hstate]
  unfold Sending.tagNone
  split
  · rename_i hc
    refine ⟨_, rfl, scanned_next hleft (advanced_next _ _ rfl rfl) ?_ ?_⟩
    · refine ⟨by simp [SsiState.next], ?_, ?_, ?_, ?_⟩
      · simp only [SsiState.next]
        omega
      · simp only [SsiState.next]
        omega
      · simp only [SsiState.next]
        omega
      · simp [SsiState.InRange, SsiState.next, gPcTagLeadIn]
    · rw [reading_none hsc, read_open hc, reading_some (s := .leadin 1) rfl]
      simp only [SsiState.next]
      rw [slice_next data (Nat.le_refl _) hlt, Nat.sub_self, slice_zero, List.nil_append]
  · rename_i hc
    refine ⟨_, rfl, scanned_next hleft (advanced_next _ _ rfl rfl) ?_ ?_⟩
    · refine ⟨h.state, ?_, ?_, fun hne => absurd hsc hne, ?_⟩
      · simp only [SsiState.next]
        omega
      · simp only [SsiState.next]
        omega
      · simp only [SsiState.InRange, SsiState.next, hstate]
    · have hsc' : s.ssi.next.scan = none := hsc
      rw [reading_none hsc, reading_none hsc', read_first hc, SsiState.next,
        slice_next data hfile hlt]

theorem tagLeadin_spec (h : Scanning data file s.ssi) (hleft : s.ssi.parseLeft ≠ 0)
    (hstate : s.ssi.tagState = .leadin) : ScanRound data file s (s.tagLeadin data) := by
  have hrange := h.range
  simp only [SsiState.InRange, hstate] at hrange
  unfold Sending.tagLeadin
  split
  · -- The lead-in is complete, and no character is read.
    rename_i hend
    have hsc : s.ssi.scan = some (.name []) := by
      simp only [SsiState.scan, hstate, if_pos hend]
    refine ⟨_, rfl, ⟨by simp, h.file_le, h.parse_eq, ?_, ?_⟩, ?_, ?_⟩
    · intro _
      exact h.held (by simp [hsc])
    · exact Nat.zero_le _
    · left
      rw [reading_some hsc, reading_some (s := .name []) rfl]
      exact ⟨rfl, rfl⟩
    · simp only [SsiState.work, hstate, if_pos hend]
      omega
  · rename_i hend
    have hsc : s.ssi.scan = some (.leadin s.ssi.tagIndex) := by
      simp only [SsiState.scan, hstate, if_neg hend]
    split
    · rename_i hc
      refine ⟨_, rfl, scanned_more h hleft (advanced_next _ _ rfl rfl) (by simp [SsiState.next, hstate])
        ?_ rfl hsc ?_ (if_pos hc)⟩
      · simp only [SsiState.InRange, SsiState.next, hstate]
        omega
      · simp only [SsiState.scan, SsiState.next, hstate]
    · rename_i hc
      exact ⟨_, rfl, scanned_text h hleft (advanced_next _ _ rfl rfl) rfl hsc (if_neg hc)⟩

theorem take_setByte_before {n : Nat} (b : Buffer n) (off : Nat) (v : UInt8) (h : off < n) :
    (b.setByte off v).bytes.take off = b.bytes.take off := by
  have htake := congrArg (List.take off) (b.take_setByte off v h)
  rw [List.take_take, Nat.min_eq_left (Nat.le_succ off)] at htake
  rw [htake]
  exact List.take_left' (by rw [List.length_take, Buffer.length_bytes]; omega)

theorem tagFound_spec (h : Scanning data file s.ssi) (hleft : s.ssi.parseLeft ≠ 0)
    (hstate : s.ssi.tagState = .found) : ScanRound data file s (s.tagFound data) := by
  have hrange : s.ssi.tagIndex ≤ lwipHttpdMaxTagNameLen := by
    have hrange := h.range
    simpa only [SsiState.InRange, hstate] using hrange
  have hlen : (s.ssi.tagName.bytes.take s.ssi.tagIndex).length = s.ssi.tagIndex := by
    rw [List.length_take, Buffer.length_bytes]
    omega
  have hsc := scan_found hstate
  unfold Sending.tagFound
  simp only
  split
  · -- White space in front of the name.
    rename_i hspace
    refine ⟨_, rfl, scanned_more h hleft (advanced_next _ _ rfl rfl) h.state ?_ rfl hsc hsc ?_⟩
    · simpa only [SsiState.InRange, SsiState.next, hstate] using hrange
    · rw [scanNext, hlen, if_pos hspace]
  · rename_i hspace
    split
    · rename_i hend
      split
      · rename_i hzero
        refine ⟨_, rfl, scanned_text h hleft (advanced_next _ _ rfl rfl) rfl hsc ?_⟩
        rw [scanNext, hlen, if_neg hspace, if_pos hend, if_pos hzero]
      · -- The name ends here.
        rename_i hpos
        refine ⟨_, rfl, scanned_more h hleft (advanced_next _ _ rfl rfl) (by simp [SsiState.next])
          ?_ rfl hsc rfl ?_⟩
        · refine ⟨?_, Nat.pos_of_ne_zero hpos, hrange,
            s.ssi.tagName.byte_setByte_self _ 0 (Nat.lt_succ_of_le hrange)⟩
          simp only [SsiState.next]
          split <;> decide
        · have hname := take_setByte_before s.ssi.tagName s.ssi.tagIndex 0 (Nat.lt_succ_of_le hrange)
          rw [scanNext, hlen, if_neg hspace, if_pos hend, if_neg hpos]
          simp only [SsiState.next, hname]
    · rename_i hend
      split
      · rename_i hroom
        refine ⟨_, rfl, scanned_more h hleft (advanced_next _ _ rfl rfl)
          (by simp [SsiState.next, hstate]) ?_ rfl hsc (scan_found hstate) ?_⟩
        · simp only [SsiState.InRange, SsiState.next, hstate]
          omega
        · have hname := s.ssi.tagName.take_setByte s.ssi.tagIndex (byteAt data s.ssi.parsed)
            (Nat.lt_succ_of_le hrange)
          rw [scanNext, hlen, if_neg hspace, if_neg hend, if_pos hroom]
          simp only [SsiState.next, hname]
      · rename_i hroom
        refine ⟨_, rfl, scanned_text h hleft (advanced_next _ _ rfl rfl) rfl hsc ?_⟩
        rw [scanNext, hlen, if_neg hspace, if_neg hend, if_neg hroom]

def Completes (data : List UInt8) (s : Sending W) : Prop :=
  s.ssi.tagState = .leadout ∧ s.ssi.tagIndex = gPcTagLeadOut.length - 1 ∧
    byteAt data s.ssi.parsed = byteAt gPcTagLeadOut s.ssi.tagIndex

theorem tagLeadout_spec (h : Scanning data file s.ssi) (hleft : s.ssi.parseLeft ≠ 0)
    (hstate : s.ssi.tagState = .leadout) (hnot : ¬Completes data s) :
    ScanRound data file s (s.tagLeadout env data) := by
  have hrange : s.ssi.tagIndex < gPcTagLeadOut.length ∧ 1 ≤ s.ssi.tagNameLen ∧
      s.ssi.tagNameLen ≤ lwipHttpdMaxTagNameLen ∧ s.ssi.tagName.byte s.ssi.tagNameLen = 0 := by
    have hrange := h.range
    simpa only [SsiState.InRange, hstate] using hrange
  have hsc := scan_leadout hstate
  unfold Sending.tagLeadout
  simp only
  split
  · rename_i hspace
    refine ⟨_, rfl, scanned_more h hleft (advanced_next _ _ rfl rfl) h.state ?_ rfl hsc hsc ?_⟩
    · simpa only [SsiState.InRange, SsiState.next, hstate] using hrange
    · rw [scanNext, if_pos hspace]
  · rename_i hspace
    split
    · rename_i hc
      split
      · rename_i hlast
        exact absurd ⟨hstate, hlast, hc⟩ hnot
      · rename_i hlast
        refine ⟨_, rfl, scanned_more h hleft (advanced_next _ _ rfl rfl)
          (by simp [SsiState.next, hstate]) ?_ rfl hsc (scan_leadout hstate) ?_⟩
        · simp only [SsiState.InRange, SsiState.next, hstate]
          exact ⟨by omega, hrange.2⟩
        · rw [scanNext, if_neg hspace, if_pos hc, if_neg hlast]
          rfl
    · rename_i hc
      refine ⟨_, rfl, scanned_text h hleft (advanced_next _ _ rfl rfl) rfl hsc ?_⟩
      rw [scanNext, if_neg hspace, if_neg hc]

end Rounds

end Lrndis.Http
