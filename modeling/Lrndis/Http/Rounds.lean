import Lrndis.Http.Reading

/-!
# What a round of `http_send_data_ssi` sends

The text in front of the tags, their inserts, and the text behind them, each once and in
order, whatever TCP takes.
-/

namespace Lrndis.Http

open Mem Template

variable {W : Type} {env : Env W} {data : List UInt8}

/-! ## What is still to come -/

abbrev piecesFrom (data : List UInt8) (file : Nat) : List (Piece UInt8 (List UInt8)) :=
  ssiScanner.pieces .start (data.drop file)

/-- No tag is so long that its length does not fit into 16 bits. -/
def Short (all : List (Piece UInt8 (List UInt8))) : Prop :=
  ∀ t raw, Piece.tag t raw ∈ all → raw.length < 65536

structure Searching (data : List UInt8) (all : List (Piece UInt8 (List UInt8))) (file : Nat)
    (ssi : SsiState) : Prop extends Scanning data file ssi where
  reads : ssiScanner.pieces (reading data file ssi) (data.drop ssi.parsed) = piecesFrom data file
  within : piecesFrom data file <:+ all

/-- Reading what is in front of `file` and not to be sent, which has no tags. -/
structure Skipping (data : List UInt8) (all : List (Piece UInt8 (List UInt8))) (file : Nat)
    (ssi : SsiState) : Prop where
  from_start : ∃ b, Scanning data b ssi ∧
    ssiScanner.readAll (reading data b ssi) (slice data ssi.parsed (file - ssi.parsed)) =
      ([], ⟨slice data b (file - b), none⟩)
  parsed_lt : ssi.parsed < file
  file_le : file ≤ data.length
  within : piecesFrom data file <:+ all

/-- A tag was found, and what is in front of it and its insert are being sent. -/
structure Serving (data : List UInt8) (all : List (Piece UInt8 (List UInt8))) (file : Nat)
    (ssi : SsiState) : Prop where
  state : ssi.tagState = .sending
  parsed_eq : ssi.parsed = ssi.tagStarted
  started_lt : ssi.tagStarted < ssi.tagEnd
  short : ssi.tagEnd - ssi.tagStarted < 65536
  parse_eq : ssi.tagEnd + ssi.parseLeft = data.length
  place : (file ≤ ssi.tagStarted ∧ ssi.tagIndex = 0) ∨ file = ssi.tagEnd
  index_le : ssi.tagIndex ≤ ssi.tagInsertLen
  insert_le : ssi.tagInsertLen ≤ lwipHttpdMaxTagInsertLen + 1
  within : ∃ t raw, .tag t raw :: piecesFrom data ssi.tagEnd <:+ all

def pending (data : List UInt8) (file : Nat) (ssi : SsiState) : List (Piece UInt8 (List UInt8)) :=
  if ssi.tagState = .sending then
    .text (slice data file (ssi.tagStarted - file)) ::
      .text (slice ssi.tagInsert.bytes ssi.tagIndex (ssi.tagInsertLen - ssi.tagIndex)) ::
      piecesFrom data ssi.tagEnd
  else if ssi.parseLeft = 0 then [.text (data.drop file)]
  else piecesFrom data file

section Pending

variable {file : Nat} {ssi ssi' : SsiState} {all : List (Piece UInt8 (List UInt8))}

theorem pending_serving (h : ssi.tagState = .sending) :
    pending data file ssi = .text (slice data file (ssi.tagStarted - file)) ::
      .text (slice ssi.tagInsert.bytes ssi.tagIndex (ssi.tagInsertLen - ssi.tagIndex)) ::
      piecesFrom data ssi.tagEnd := if_pos h

theorem pending_done (hstate : ssi.tagState ≠ .sending) (hleft : ssi.parseLeft = 0) :
    pending data file ssi = [.text (data.drop file)] := by
  rw [pending, if_neg hstate, if_pos hleft]

theorem reading_all (h : Scanning data file ssi) :
    (reading data file ssi).all = slice data file (ssi.parsed - file) := by
  cases hsc : ssi.scan with
  | none =>
    rw [reading_none hsc]
    simp [Reading.all]
  | some s =>
    obtain ⟨hfile, hopen⟩ := h.held (by simp [hsc])
    rw [reading_some hsc, slice_join data hfile (Nat.le_of_lt hopen)]
    rfl

theorem pending_searching (h : Searching data all file ssi) :
    pending data file ssi = piecesFrom data file := by
  by_cases hleft : ssi.parseLeft = 0
  · -- The whole file was read, and what is held of a tag is text.
    have hend : ssi.parsed = data.length := by
      have := h.parse_eq
      omega
    have hall : slice data file (data.length - file) = data.drop file := by
      rw [slice, List.take_of_length_le (by simp)]
    rw [pending_done h.state hleft, ← h.reads, hend, List.drop_length, Scanner.pieces,
      reading_all h.toScanning, hend, hall]
  · rw [pending, if_neg h.state, if_neg hleft]

theorem searching_of_scanned (h : Searching data all file ssi) (hleft : ssi.parseLeft ≠ 0)
    (hscan : Scanned data file ssi ssi') : Searching data all file ssi' :=
  { hscan.scanning with
    reads := (pieces_of_scanned h.toScanning hleft hscan).trans h.reads, within := h.within }

theorem searching_fresh (hstate : ssi.tagState = .none) (hparsed : ssi.parsed = file)
    (hparse : ssi.parsed + ssi.parseLeft = data.length) (hwithin : piecesFrom data file <:+ all) :
    Searching data all file ssi := by
  have hsc : ssi.scan = none := by
    simp only [SsiState.scan, hstate]
  refine ⟨⟨by simp [hstate], by omega, hparse, fun hne => absurd hsc hne, ?_⟩, ?_, hwithin⟩
  · simp only [SsiState.InRange, hstate]
  · rw [reading_none hsc, hparsed, Nat.sub_self, slice_zero]
    rfl

end Pending

/-! ## Sending a part of the file -/

section Wrote

variable {s : Sending W} {r : Written W} {n : Nat}

theorem wrote_ok (h : r.err = .ok) :
    s.wrote r n =
      { s with
        w := r.w, err := .ok, len := n, file := s.file + n, left := u32 (s.left - n),
        dataToSend := true, acts := s.acts ++ r.acts } := if_pos h

theorem wrote_failed (h : r.err ≠ .ok) :
    s.wrote r n = { s with w := r.w, err := r.err, len := r.len } := if_neg h

theorem left_after {file left n : Nat} (h : file + left = data.length) (hn : file + n ≤ data.length)
    (hdata : data.length < 4294967296) : file + n + u32 (left - n) = data.length := by
  unfold u32
  omega

theorem fills_wrote {l : List UInt8} {off len k : Nat} (ps : List (Piece UInt8 (List UInt8)))
    (hr : WroteSome (l.drop off) len r) (hlen : len ≤ k) :
    Fills (.text (slice l off k) :: ps) r.acts (.text (slice l (off + r.len) (k - r.len)) :: ps) := by
  rw [slice_split l off r.len k (Nat.le_trans hr.len_le hlen)]
  exact fills_text _ ps hr.output_eq hr.asked_eq

end Wrote

/-! ## A round -/

def Sending.rank (data : List UInt8) (s : Sending W) : Nat :=
  (data.length - s.file) + s.ssi.work + if s.err = .ok then 1 else 0

inductive Shape (data : List UInt8) (all : List (Piece UInt8 (List UInt8))) (file : Nat)
    (ssi : SsiState) : Prop
  | searching (h : Searching data all file ssi)
  | serving (h : Serving data all file ssi)
  | skipping (h : Skipping data all file ssi)

structure Stepped (data : List UInt8) (all : List (Piece UInt8 (List UInt8))) (s s' : Sending W) :
    Prop where
  shape : Shape data all s'.file s'.ssi
  left_eq : s'.file + s'.left = data.length
  len_ok : s'.err = .ok → s'.len ≠ 0 ∧ s'.len < 65536
  failed : s'.err ≠ .ok → s'.ssi.tagState = .sending
  fills : ∃ acts, s'.acts = s.acts ++ acts ∧
    Fills (pending data s.file s.ssi) acts (pending data s'.file s'.ssi)
  rank_lt : s'.rank data < s.rank data

section Round

variable {s : Sending W} {all : List (Piece UInt8 (List UInt8))}

theorem stepped_scan {s' : Sending W} (h : Searching data all s.file s.ssi)
    (hgoes : s.Goes) (hleft : s.file + s.left = data.length) (hlen : s.len < 65536)
    (hround : ScanRound data s.file s s') : Stepped data all s s' := by
  obtain ⟨ssi, rfl, hscan⟩ := hround
  have hnext := searching_of_scanned h hgoes.1 hscan
  have hwork := hscan.work_lt
  refine ⟨.searching hnext, hleft, fun _ => ⟨hgoes.2.2, hlen⟩, fun hne => absurd hgoes.2.1 hne,
    ⟨[], by simp, ?_⟩, ?_⟩
  · rw [pending_searching h, pending_searching hnext]
    exact Fills.refl _
  · simp only [Sending.rank]
    omega

theorem stepped_writeBefore (h : Serving data all s.file s.ssi) (hok : s.err = .ok)
    (hne : s.len ≠ 0) (hleft : s.file + s.left = data.length) (hlen : s.len < 65536)
    (hdata : data.length < 4294967296) (hbefore : s.file < s.ssi.tagEnd) :
    Stepped data all s (s.writeBefore env data) := by
  have hparse := h.parse_eq
  have hstarted := h.started_lt
  have hshort := h.short
  obtain ⟨hplace, hindex⟩ : s.file ≤ s.ssi.tagStarted ∧ s.ssi.tagIndex = 0 := by
    rcases h.place with hplace | hplace
    · exact hplace
    · omega
  obtain ⟨k, hk⟩ := Nat.exists_eq_add_of_le hplace
  have hcut : (if ((s.ssi.tagStarted : Int) - s.file < s.len) then
      u16 ((s.ssi.tagStarted : Int) - s.file) else s.len) = min k s.len := by
    unfold u16
    split <;> omega
  rw [Sending.writeBefore, hcut]
  generalize hr : httpWrite env s.w (data.drop s.file) (min k s.len) = r
  by_cases herr : r.err = .ok
  · have hsome : WroteSome (data.drop s.file) (min k s.len) r := by
      rw [← hr] at herr ⊢
      exact httpWrite_ok herr
    have hle := hsome.len_le
    have hpos := hsome.len_pos
    rw [wrote_ok herr]
    have hfills := fills_wrote
      (.text (slice s.ssi.tagInsert.bytes s.ssi.tagIndex (s.ssi.tagInsertLen - s.ssi.tagIndex)) ::
        piecesFrom data s.ssi.tagEnd) hsome (Nat.min_le_left k s.len)
    by_cases hzero : k = 0
    · -- All the text is sent, and the tag is passed over.
      have hrlen : r.len = 0 := by omega
      have hn : (if s.ssi.tagStarted ≤ s.file then
          u16 ((r.len : Int) + (s.ssi.tagEnd - s.ssi.tagStarted : Int)) else r.len) =
          s.ssi.tagEnd - s.ssi.tagStarted := by
        unfold u16
        rw [if_pos (by omega)]
        omega
      rw [hn]
      have hfile : s.file + (s.ssi.tagEnd - s.ssi.tagStarted) = s.ssi.tagEnd := by omega
      refine ⟨.serving { h with place := Or.inr hfile }, ?_, ?_, ?_, ⟨r.acts, rfl, ?_⟩, ?_⟩
      · exact left_after hleft (by omega) hdata
      · simp only
        omega
      · simp
      · rw [pending_serving h.state, pending_serving h.state]
        simp only [hfile, show s.ssi.tagStarted - s.file = k by omega,
          show s.ssi.tagStarted - s.ssi.tagEnd = 0 by omega]
        simpa only [hzero, hrlen, Nat.sub_zero, slice_zero] using hfills
      · simp only [Sending.rank, hok]
        omega
    · -- Text in front of the tag is left, so the tag stays ahead.
      have hn : (if s.ssi.tagStarted ≤ s.file then
          u16 ((r.len : Int) + (s.ssi.tagEnd - s.ssi.tagStarted : Int)) else r.len) = r.len :=
        if_neg (by omega)
      rw [hn]
      refine ⟨.serving { h with place := Or.inl ⟨?_, hindex⟩ }, ?_, ?_, ?_, ⟨r.acts, rfl, ?_⟩, ?_⟩
      · simp only
        omega
      · exact left_after hleft (by omega) hdata
      · simp only
        omega
      · simp
      · rw [pending_serving h.state, pending_serving h.state]
        simp only [show s.ssi.tagStarted - s.file = k by omega,
          show s.ssi.tagStarted - (s.file + r.len) = k - r.len by omega]
        exact hfills
      · simp only [Sending.rank, hok]
        omega
  · -- Nothing was sent. It is the error that brings the loop nearer to its end.
    rw [wrote_failed herr]
    refine ⟨.serving h, hleft, fun h => absurd h herr, fun _ => h.state, ⟨[], by simp, Fills.refl _⟩, ?_⟩
    rw [Sending.rank, Sending.rank, if_pos hok, if_neg herr]
    simp only
    omega

theorem stepped_insert (h : Serving data all s.file s.ssi) (hgoes : s.Goes)
    (hleft : s.file + s.left = data.length) (hlen : s.len < 65536)
    (hafter : ¬s.file < s.ssi.tagEnd) : Stepped data all s (s.tagSending env data) := by
  obtain ⟨hparse, hok, hne⟩ := hgoes
  have hindex := h.index_le
  have hinsert := h.insert_le
  have hstarted := h.started_lt
  have hmax : lwipHttpdMaxTagInsertLen = 192 := rfl
  have hfile : s.file = s.ssi.tagEnd := by
    rcases h.place with hplace | hplace
    · omega
    · exact hplace
  have hnone : s.ssi.tagStarted - s.file = 0 := by omega
  rw [Sending.tagSending, if_neg hafter]
  split
  · rename_i hmore
    simp only
    generalize hr : httpWrite env s.w (s.ssi.tagInsert.bytes.drop s.ssi.tagIndex)
      (min s.len (s.ssi.tagInsertLen - s.ssi.tagIndex)) = r
    by_cases herr : r.err = .ok
    · have hsome : WroteSome (s.ssi.tagInsert.bytes.drop s.ssi.tagIndex)
          (min s.len (s.ssi.tagInsertLen - s.ssi.tagIndex)) r := by
        rw [← hr] at herr ⊢
        exact httpWrite_ok herr
      have hle := hsome.len_le
      have hpos := hsome.len_pos
      have hsum : u16 ((s.ssi.tagIndex : Int) + r.len) = s.ssi.tagIndex + r.len := by
        unfold u16
        omega
      rw [if_pos herr, hsum]
      have hnext : Serving data all s.file { s.ssi with tagIndex := s.ssi.tagIndex + r.len } :=
        { h with place := Or.inr hfile, index_le := by simp only; omega }
      refine ⟨.serving hnext, hleft, ?_, fun _ => h.state, ⟨r.acts, rfl, ?_⟩, ?_⟩
      · simp only
        omega
      · have hfills := fills_wrote (piecesFrom data s.ssi.tagEnd) hsome
          (Nat.min_le_right s.len (s.ssi.tagInsertLen - s.ssi.tagIndex))
        rw [pending_serving h.state, pending_serving hnext.state, hnone, slice_zero]
        simp only [Nat.sub_add_eq]
        exact hfills.under
      · simp only [Sending.rank, SsiState.work, h.state, hok]
        omega
    · rw [if_neg herr]
      refine ⟨.serving h, hleft, fun h => absurd h herr, fun _ => h.state, ⟨[], by simp, Fills.refl _⟩, ?_⟩
      rw [Sending.rank, Sending.rank, if_pos hok, if_neg herr]
      simp only
      omega
  · -- The insert is sent, and the search goes on behind the tag.
    rename_i hdone
    have hend : s.ssi.tagIndex = s.ssi.tagInsertLen := by omega
    have hnext : Searching data all s.file
        { s.ssi with tagIndex := 0, tagState := .none, parsed := s.ssi.tagEnd } := by
      refine searching_fresh rfl hfile.symm h.parse_eq ?_
      obtain ⟨t, raw, hwithin⟩ := h.within
      rw [hfile]
      exact (List.suffix_cons _ _).trans hwithin
    refine ⟨.searching hnext, hleft, fun _ => ⟨hne, hlen⟩, fun h => absurd hok h, ⟨[], by simp, ?_⟩, ?_⟩
    · rw [pending_serving h.state, pending_searching hnext, hnone, hend, Nat.sub_self, slice_zero,
        slice_zero, hfile]
      exact Fills.refl _
    · simp only [Sending.rank, SsiState.work, h.state]
      omega

/-- The contract of the handler: the insert fits into the buffer that it was given. -/
def Env.Fits (env : Env W) : Prop :=
  ∀ w i insert, i < env.ppcTags.length →
    (env.ssiHandler w i insert lwipHttpdMaxTagInsertLen).1.toNat ≤ lwipHttpdMaxTagInsertLen

theorem getTagInsert_spec (hfits : env.Fits) (w : W) (ssi : SsiState) :
    ∃ n insert, n ≤ lwipHttpdMaxTagInsertLen + 1 ∧
      (getTagInsert env w ssi).1 = { ssi with tagInsertLen := n, tagInsert := insert } := by
  unfold getTagInsert
  simp only
  split
  · rename_i loop hloop
    have hlt := (List.findIdx?_eq_some_iff_getElem.mp hloop).1
    exact ⟨_, _, Nat.le_succ_of_le (hfits w loop ssi.tagInsert hlt), rfl⟩
  · refine ⟨_, _, ?_, rfl⟩
    have hread : ∀ b : Buffer (lwipHttpdMaxTagInsertLen + 1),
        (CString.read b 0).length ≤ lwipHttpdMaxTagInsertLen + 1 := by
      intro b
      have htake := (List.takeWhile_prefix (l := b.bytes.drop 0) (· ≠ (0 : UInt8))).length_le
      simpa [CString.read] using htake
    rw [u16_of_lt (Nat.lt_of_le_of_lt (hread _) (by decide))]
    exact hread _

theorem tagComplete_spec (hfits : env.Fits) (s : Sending W) :
    ∃ n insert w, n ≤ lwipHttpdMaxTagInsertLen + 1 ∧
      Sending.tagComplete env { s with ssi := s.ssi.next } =
        { s with
          w := w,
          ssi :=
            { s.ssi with
              parsed := s.ssi.tagStarted, parseLeft := s.ssi.parseLeft - 1,
              tagEnd := s.ssi.parsed + 1, tagIndex := 0, tagState := .sending,
              tagInsertLen := n, tagInsert := insert },
          acts := s.acts ++
            [.ask (s.ssi.tagName.bytes.take s.ssi.tagNameLen) (insert.bytes.take n)] } := by
  obtain ⟨n, insert, hn, hget⟩ := getTagInsert_spec hfits s.w s.ssi.next
  refine ⟨n, insert, (getTagInsert env s.w s.ssi.next).2, hn, ?_⟩
  simp only [Sending.tagComplete, hget]
  rfl

theorem read_complete (file : Nat) (hc : Completes data s) :
    ssiScanner.read (reading data file s.ssi) (byteAt data s.ssi.parsed) =
      ([.text (slice data file (s.ssi.tagStarted - file)),
        .tag (s.ssi.tagName.bytes.take s.ssi.tagNameLen)
          (slice data s.ssi.tagStarted (s.ssi.parsed - s.ssi.tagStarted) ++
            [byteAt data s.ssi.parsed])], .start) := by
  obtain ⟨hstate, hindex, hchar⟩ := hc
  have hzero : s.ssi.tagIndex ≠ 0 := by
    rw [hindex]
    decide
  rw [reading_some (scan_leadout hstate)]
  apply read_tag
  rw [scanNext, if_neg (fun h => hzero h.1), if_pos hchar, if_pos hindex]

theorem pieces_complete (h : Searching data all s.file s.ssi) (hleft : s.ssi.parseLeft ≠ 0)
    (hc : Completes data s) :
    ∃ raw, raw.length = s.ssi.parsed + 1 - s.ssi.tagStarted ∧
      piecesFrom data s.file = .text (slice data s.file (s.ssi.tagStarted - s.file)) ::
        .tag (s.ssi.tagName.bytes.take s.ssi.tagNameLen) raw :: piecesFrom data (s.ssi.parsed + 1) := by
  have hlt := parsed_lt h.toScanning hleft
  obtain ⟨hfile, hopen⟩ := h.held (by simp [scan_leadout hc.1])
  refine ⟨slice data s.ssi.tagStarted (s.ssi.parsed - s.ssi.tagStarted) ++
    [byteAt data s.ssi.parsed], ?_, ?_⟩
  · rw [List.length_append, slice_length _ _ _ (by omega), List.length_singleton]
    omega
  · rw [← h.reads, drop_eq_byteAt_cons data s.ssi.parsed hlt, Scanner.pieces,
      read_complete s.file hc]
    rfl

/-- The end of a tag: the insert is fetched, and the text in front of the tag is sent. -/
theorem stepped_complete (hfits : env.Fits) (h : Searching data all s.file s.ssi) (hgoes : s.Goes)
    (hleft : s.file + s.left = data.length) (hlen : s.len < 65536)
    (hdata : data.length < 4294967296) (hshort : Short all) (hc : Completes data s) :
    Stepped data all s (s.tagLeadout env data) := by
  obtain ⟨hparse, hok, hne⟩ := hgoes
  obtain ⟨raw, hraw, hpieces⟩ := pieces_complete h hparse hc
  obtain ⟨hstate, hindex, hchar⟩ := hc
  obtain ⟨hfile, hopen⟩ := h.held (by simp [scan_leadout hstate])
  have hparsed := h.parse_eq
  have hmax : lwipHttpdMaxTagInsertLen = 192 := rfl
  obtain ⟨n, insert, w, hn, ht⟩ := tagComplete_spec hfits s
  have hwithin : .tag (s.ssi.tagName.bytes.take s.ssi.tagNameLen) raw ::
      piecesFrom data (s.ssi.parsed + 1) <:+ all := by
    apply List.IsSuffix.trans _ h.within
    rw [hpieces]
    exact List.suffix_cons _ _
  have htag : raw.length < 65536 := hshort _ raw (hwithin.subset List.mem_cons_self)
  have hround : s.tagLeadout env data =
      if (Sending.tagComplete env { s with ssi := s.ssi.next }).file <
          (Sending.tagComplete env { s with ssi := s.ssi.next }).ssi.tagEnd then
        (Sending.tagComplete env { s with ssi := s.ssi.next }).writeBefore env data
      else Sending.tagComplete env { s with ssi := s.ssi.next } := by
    have hzero : ¬(s.ssi.tagIndex = 0 ∧ isSpace (byteAt data s.ssi.parsed)) := by
      rintro ⟨hzero, -⟩
      rw [hindex] at hzero
      exact absurd hzero (by decide)
    simp only [Sending.tagLeadout, if_neg hzero, if_pos hchar, if_pos hindex]
  rw [hround, ht]
  generalize htdef : ({ s with
          w := w,
          ssi :=
            { s.ssi with
              parsed := s.ssi.tagStarted, parseLeft := s.ssi.parseLeft - 1,
              tagEnd := s.ssi.parsed + 1, tagIndex := 0, tagState := .sending,
              tagInsertLen := n, tagInsert := insert },
          acts := s.acts ++
            [.ask (s.ssi.tagName.bytes.take s.ssi.tagNameLen) (insert.bytes.take n)] } :
      Sending W) = t
  -- The round goes on as one that sends: what is in front of the tag, then the insert.
  have hserving : Serving data all t.file t.ssi := by
    rw [← htdef]
    exact ⟨rfl, rfl, by simp only; omega, by simp only; omega, by simp only; omega,
      Or.inl ⟨hfile, rfl⟩, Nat.zero_le n, hn, _, raw, hwithin⟩
  have hfills : ∃ acts, t.acts = s.acts ++ acts ∧
      Fills (pending data s.file s.ssi) acts (pending data t.file t.ssi) := by
    rw [pending_searching h, pending_serving hserving.state, hpieces, ← htdef]
    exact ⟨_, rfl, fills_ask _ raw _ _ _⟩
  have hbefore : t.file < t.ssi.tagEnd := by
    rw [← htdef]
    simp only
    omega
  have hrank : t.rank data < s.rank data := by
    rw [← htdef]
    simp only [Sending.rank, SsiState.work, hstate]
    omega
  rw [if_pos hbefore]
  have hstep : Stepped data all t (t.writeBefore env data) := stepped_writeBefore hserving (by rw [← htdef]; exact hok)
    (by rw [← htdef]; exact hne) (by rw [← htdef]; exact hleft) (by rw [← htdef]; exact hlen) hdata
    hbefore
  obtain ⟨acts, hacts, hfills⟩ := hfills
  obtain ⟨more, hmore, hfills'⟩ := hstep.fills
  exact { hstep with
    fills := ⟨acts ++ more, by rw [hmore, hacts, List.append_assoc], hfills.trans hfills'⟩
    rank_lt := Nat.lt_trans hstep.rank_lt hrank }

theorem scanRound_of_not_completes {file : Nat} (h : Scanning data file s.ssi)
    (hparse : s.ssi.parseLeft ≠ 0) (hc : ¬Completes data s) :
    ScanRound data file s (s.round env data) := by
  rw [Sending.round]
  split
  · exact tagNone_spec h hparse ‹_›
  · exact tagLeadin_spec h hparse ‹_›
  · exact tagFound_spec h hparse ‹_›
  · exact tagLeadout_spec h hparse ‹_› hc
  · exact absurd ‹_› h.state

theorem pending_skipping {file : Nat} {ssi : SsiState} (h : Skipping data all file ssi) :
    pending data file ssi = piecesFrom data file := by
  obtain ⟨b, hscan, -⟩ := h.from_start
  have hparse := hscan.parse_eq
  have hlt := h.parsed_lt
  have hle := h.file_le
  rw [pending, if_neg hscan.state, if_neg (by omega)]

theorem stepped_skip (h : Skipping data all s.file s.ssi) (hgoes : s.Goes)
    (hleft : s.file + s.left = data.length) (hlen : s.len < 65536) :
    Stepped data all s (s.round env data) := by
  obtain ⟨b, hscan, hread⟩ := h.from_start
  have hlt := h.parsed_lt
  have hle := h.file_le
  have hparse := hscan.parse_eq
  have hb := hscan.file_le
  have hcons : slice data s.ssi.parsed (s.file - s.ssi.parsed) =
      byteAt data s.ssi.parsed :: slice data (s.ssi.parsed + 1) (s.file - (s.ssi.parsed + 1)) := by
    rw [slice_split data s.ssi.parsed 1 _ (by omega), slice_snoc data s.ssi.parsed 0 (by omega),
      slice_zero, show s.file - s.ssi.parsed - 1 = s.file - (s.ssi.parsed + 1) by omega]
    rfl
  rw [hcons, Scanner.readAll] at hread
  obtain ⟨hnil, hrest⟩ := Prod.mk.inj hread
  obtain ⟨hfirst, hothers⟩ := List.append_eq_nil_iff.mp hnil
  have hnot : ¬Completes data s := by
    intro hc
    rw [read_complete b hc] at hfirst
    exact absurd hfirst (List.cons_ne_nil _ _)
  have hround : ScanRound data b s (s.round env data) :=
    scanRound_of_not_completes hscan hgoes.1 hnot
  obtain ⟨ssi, hround, hscanned⟩ := hround
  have hwork := hscanned.work_lt
  have hpending : ∀ h' : Shape data all s.file ssi, pending data s.file ssi = piecesFrom data s.file →
      Stepped data all s { s with ssi := ssi } := by
    intro hshape hsame
    refine ⟨hshape, hleft, fun _ => ⟨hgoes.2.2, hlen⟩, fun hne => absurd hgoes.2.1 hne,
      ⟨[], by simp, ?_⟩, ?_⟩
    · rw [pending_skipping h, hsame]
      exact Fills.refl _
    · simp only [Sending.rank]
      omega
  rw [hround]
  rcases hscanned.read with ⟨hsame, hreading⟩ | ⟨hnext, hreads⟩
  · -- A round that reads nothing.
    have hskip : Skipping data all s.file ssi := by
      refine ⟨⟨b, hscanned.scanning, ?_⟩, by omega, hle, h.within⟩
      rw [hsame, hreading, hcons, Scanner.readAll]
      exact Prod.ext hnil hrest
    exact hpending (.skipping hskip) (pending_skipping hskip)
  · rw [hreads] at hothers hrest
    by_cases hend : s.ssi.parsed + 1 = s.file
    · -- Here the text begins that is to be sent.
      have hdone : reading data b ssi = ⟨slice data b (s.file - b), none⟩ := by
        rw [hend, Nat.sub_self, slice_zero] at hrest
        exact hrest
      have hnone : ssi.scan = none := by
        cases hsc : ssi.scan with
        | none => rfl
        | some sc =>
          rw [reading_some hsc] at hdone
          exact absurd (congrArg Reading.held hdone) (by simp)
      have hstate : ssi.tagState = .none := by
        have hne := hscanned.scanning.state
        unfold SsiState.scan at hnone
        split at hnone
        · assumption
        · contradiction
        all_goals simp at hnone
      have hfresh : Searching data all s.file ssi :=
        searching_fresh hstate (by omega) hscanned.scanning.parse_eq h.within
      exact hpending (.searching hfresh) (pending_searching hfresh)
    · -- Still in front of it.
      have hskip : Skipping data all s.file ssi := by
        refine ⟨⟨b, hscanned.scanning, ?_⟩, by omega, hle, h.within⟩
        rw [hnext]
        exact Prod.ext hothers hrest
      exact hpending (.skipping hskip) (pending_skipping hskip)

theorem stepped_round (hfits : env.Fits) (hgoes : s.Goes) (hlen : s.len < 65536)
    (hdata : data.length < 4294967296) (hshort : Short all)
    (h : Shape data all s.file s.ssi) (hleft : s.file + s.left = data.length) :
    Stepped data all s (s.round env data) := by
  have hparse := hgoes.1
  cases h with
  | searching h =>
    by_cases hc : Completes data s
    · rw [Sending.round, hc.1]
      exact stepped_complete hfits h hgoes hleft hlen hdata hshort hc
    · exact stepped_scan h hgoes hleft hlen (scanRound_of_not_completes h.toScanning hparse hc)
  | serving h =>
    rw [Sending.round, h.state]
    by_cases hbefore : s.file < s.ssi.tagEnd
    · rw [Sending.tagSending, if_pos hbefore]
      exact stepped_writeBefore h hgoes.2.1 hgoes.2.2 hleft hlen hdata hbefore
    · exact stepped_insert h hgoes hleft hlen hbefore
  | skipping h => exact stepped_skip h hgoes hleft hlen

end Round

end Lrndis.Http
