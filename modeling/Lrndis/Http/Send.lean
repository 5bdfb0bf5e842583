import Lrndis.Http.Rounds

/-!
# What a call of `http_send_data_ssi` sends

From one call to the next a page goes on where it was left.
-/

namespace Lrndis.Http

open Mem Template

variable {W : Type} {env : Env W} {data : List UInt8} {all : List (Piece UInt8 (List UInt8))}

/-- What the state is between two calls. At first, what is in front of `file` may not have
been read yet. -/
inductive Between (data : List UInt8) (all : List (Piece UInt8 (List UInt8))) (file : Nat)
    (ssi : SsiState) : Prop
  | fresh (state : ssi.tagState = .none) (parsed_le : ssi.parsed ≤ file)
      (file_le : file ≤ data.length) (parse_eq : ssi.parsed + ssi.parseLeft = data.length)
      (quiet : ssiScanner.Quiet (slice data ssi.parsed (file - ssi.parsed)))
      (within : piecesFrom data file <:+ all)
  | serving (h : Serving data all file ssi)
  | done (state : ssi.tagState ≠ .sending) (left : ssi.parseLeft = 0)
      (parsed_eq : ssi.parsed = data.length)

def todo (data : List UInt8) (file : Nat) (ssi : SsiState) : Nat := data.length - file + ssi.work

structure Called (data : List UInt8) (all : List (Piece UInt8 (List UInt8))) (s t : Sending W) :
    Prop where
  between : Between data all t.file t.ssi
  left_eq : t.file + t.left = data.length
  fills : ∃ acts, t.acts = s.acts ++ acts ∧
    Fills (pending data s.file s.ssi) acts (pending data t.file t.ssi)
  todo_le : todo data t.file t.ssi ≤ todo data s.file s.ssi

/-! ## Text that is parsed -/

structure SentParsed (data : List UInt8) (s t : Sending W) : Prop where
  ssi_eq : t.ssi = s.ssi
  file_ge : s.file ≤ t.file
  file_le : t.file ≤ s.ssi.parsed
  left_eq : t.file + t.left = data.length
  len_lt : t.err = .ok → t.len < 65536
  fills : ∃ acts, t.acts = s.acts ++ acts ∧ ∀ ps,
    Fills (.text (slice data s.file (s.ssi.parsed - s.file)) :: ps) acts
      (.text (slice data t.file (s.ssi.parsed - t.file)) :: ps)

section Parsed

variable {s : Sending W}

theorem writeParsed_eq (env : Env W) (data : List UInt8) (hfile : s.file ≤ s.ssi.parsed) :
    ∃ len, len = min (min (env.tcpSndbuf s.w).toNat (s.ssi.parsed - s.file))
        (2 * (env.tcpMss s.w).toNat) ∧
      s.writeParsed env data =
        s.wrote (httpWrite env s.w (data.drop s.file) len)
          (httpWrite env s.w (data.drop s.file) len).len := by
  have hbuf := (env.tcpSndbuf s.w).toNat_lt
  refine ⟨_, rfl, ?_⟩
  have hcut : (if ((env.tcpSndbuf s.w).toNat : Int) < (s.ssi.parsed : Int) - s.file then
      (env.tcpSndbuf s.w).toNat else u16 ((s.ssi.parsed : Int) - s.file)) =
      min (env.tcpSndbuf s.w).toNat (s.ssi.parsed - s.file) := by
    unfold u16
    split <;> omega
  have hmin : ∀ m n : Nat, (if n < m then n else m) = min m n := by
    intro m n
    split <;> omega
  simp only [Sending.writeParsed, hcut, hmin]

theorem writeParsed_spec (hfile : s.file ≤ s.ssi.parsed) (hparsed : s.ssi.parsed ≤ data.length)
    (hleft : s.file + s.left = data.length) (hdata : data.length < 4294967296) :
    SentParsed data s (s.writeParsed env data) := by
  obtain ⟨len, hlen, hwrite⟩ := writeParsed_eq env data hfile
  have hbuf := (env.tcpSndbuf s.w).toNat_lt
  rw [hwrite]
  generalize hr : httpWrite env s.w (data.drop s.file) len = r
  by_cases herr : r.err = .ok
  · have hsome : WroteSome (data.drop s.file) len r := by
      rw [← hr] at herr ⊢
      exact httpWrite_ok herr
    have hle := hsome.len_le
    rw [wrote_ok herr]
    refine ⟨rfl, Nat.le_add_right .., ?_, left_after hleft (by omega) hdata, ?_,
      ⟨r.acts, rfl, fun ps => ?_⟩⟩
    · simp only
      omega
    · simp only
      omega
    · rw [Nat.sub_add_eq]
      exact fills_wrote ps hsome (by omega)
  · rw [wrote_failed herr]
    exact ⟨rfl, Nat.le_refl _, hfile, hleft, fun h => absurd h herr,
      ⟨[], by simp, fun _ => Fills.refl _⟩⟩

end Parsed

/-! ## The loop -/

section Loop

variable {s t : Sending W}

structure Running (data : List UInt8) (all : List (Piece UInt8 (List UInt8))) (s t : Sending W) :
    Prop where
  shape : Shape data all t.file t.ssi
  left_eq : t.file + t.left = data.length
  len_ok : t.err = .ok → t.len ≠ 0 ∧ t.len < 65536
  failed : t.err ≠ .ok → t.ssi.tagState = .sending
  fills : ∃ acts, t.acts = s.acts ++ acts ∧
    Fills (pending data s.file s.ssi) acts (pending data t.file t.ssi)
  todo_le : todo data t.file t.ssi ≤ todo data s.file s.ssi

theorem todo_of_rank (hgoes : s.Goes) (hlt : t.rank data < s.rank data) :
    todo data t.file t.ssi ≤ todo data s.file s.ssi ∧
      (t.err = .ok → todo data t.file t.ssi < todo data s.file s.ssi) := by
  rw [Sending.rank, Sending.rank, if_pos hgoes.2.1] at hlt
  unfold todo
  refine ⟨by split at hlt <;> omega, ?_⟩
  intro hok
  rw [if_pos hok] at hlt
  omega

theorem work_le {file : Nat} {ssi : SsiState} (h : Shape data all file ssi) :
    ssi.work ≤ 65540 * ssi.parseLeft + 194 := by
  unfold SsiState.work
  split
  · split <;> omega
  · rename_i hstate
    cases h with
    | searching h => exact absurd hstate h.state
    | serving h =>
      have hinsert := h.insert_le
      have hmax : lwipHttpdMaxTagInsertLen = 192 := rfl
      omega
    | skipping h =>
      obtain ⟨b, hscan, -⟩ := h.from_start
      exact absurd hstate hscan.state
  · omega

theorem running_round (hfits : env.Fits) (hdata : data.length < 4294967296) (hshort : Short all)
    (h : Running data all s t) (hgoes : t.Goes) :
    Running data all s (t.round env data) ∧ (t.round env data).rank data < t.rank data := by
  have hstep := stepped_round hfits hgoes (h.len_ok hgoes.2.1).2 hdata hshort h.shape h.left_eq
  obtain ⟨acts, hacts, hfills⟩ := h.fills
  obtain ⟨more, hmore, hfills'⟩ := hstep.fills
  have htodo := todo_of_rank hgoes hstep.rank_lt
  exact ⟨{ shape := hstep.shape, left_eq := hstep.left_eq, len_ok := hstep.len_ok
           failed := hstep.failed
           fills := ⟨acts ++ more, by rw [hmore, hacts, List.append_assoc], hfills.trans hfills'⟩
           todo_le := Nat.le_trans htodo.1 h.todo_le }, hstep.rank_lt⟩

/-- The loop comes to its end, and what it sent is what was to come. -/
theorem loop_spec (hfits : env.Fits) (hdata : data.length < 4294967296) (hshort : Short all)
    (h : Running data all s t) (hst : t.file ≤ data.length) :
    ∃ u, While.loop Sending.Goes (Sending.round env data) (t.rounds data) t = some u ∧
      Running data all s u ∧ ¬u.Goes := by
  apply While.loop_total (Sending.rank data)
    (fun u hu hgoes => running_round hfits hdata hshort hu hgoes) h
  have hwork := work_le h.shape
  unfold Sending.rank Sending.rounds
  split <;> omega

end Loop

/-! ## The call -/

section Call

variable {s t : Sending W}

theorem shape_of_fresh {file : Nat} {ssi : SsiState} (state : ssi.tagState = .none)
    (parsed_le : ssi.parsed ≤ file) (file_le : file ≤ data.length)
    (parse_eq : ssi.parsed + ssi.parseLeft = data.length)
    (quiet : ssiScanner.Quiet (slice data ssi.parsed (file - ssi.parsed)))
    (within : piecesFrom data file <:+ all) : Shape data all file ssi := by
  have hsc : ssi.scan = none := by
    simp only [SsiState.scan, state]
  by_cases hlt : ssi.parsed < file
  · refine .skipping ⟨⟨ssi.parsed, ?_, ?_⟩, hlt, file_le, within⟩
    · refine ⟨by simp [state], Nat.le_refl _, parse_eq, fun hne => absurd hsc hne, ?_⟩
      simp only [SsiState.InRange, state]
    · rw [reading_none hsc, Nat.sub_self, slice_zero]
      exact quiet
  · exact .searching (searching_fresh state (by omega) parse_eq within)

theorem between_of_shape {file : Nat} {ssi : SsiState} (h : Shape data all file ssi)
    (hstop : ssi.parseLeft = 0 ∨ ssi.tagState = .sending) : Between data all file ssi := by
  cases h with
  | searching h =>
    rcases hstop with hleft | hstate
    · refine .done h.state hleft ?_
      have hparse := h.parse_eq
      omega
    · exact absurd hstate h.state
  | serving h => exact .serving h
  | skipping h =>
    obtain ⟨b, hscan, -⟩ := h.from_start
    have hparse := hscan.parse_eq
    have hlt := h.parsed_lt
    have hle := h.file_le
    rcases hstop with hleft | hstate
    · omega
    · exact absurd hstate hscan.state

theorem slice_to_end (data : List UInt8) (file : Nat) :
    slice data file (data.length - file) = data.drop file := by
  rw [slice, List.take_of_length_le (by simp)]

theorem called_writeParsed (hdata : data.length < 4294967296) (h : Called data all s t)
    (hfile : t.file < t.ssi.parsed) : Called data all s (t.writeParsed env data) := by
  obtain ⟨acts, hacts, hfills⟩ := h.fills
  have hparsed : t.ssi.parsed ≤ data.length := by
    cases h.between with
    | fresh _ hle => omega
    | serving hs =>
      have hparse := hs.parse_eq
      have hstart := hs.started_lt
      have heq := hs.parsed_eq
      omega
    | done _ _ heq => omega
  have hsent : SentParsed data t (t.writeParsed env data) :=
    writeParsed_spec (Nat.le_of_lt hfile) hparsed h.left_eq hdata
  obtain ⟨more, hmore, hfills'⟩ := hsent.fills
  have hge := hsent.file_ge
  have hle := hsent.file_le
  have htodo : todo data (t.writeParsed env data).file (t.writeParsed env data).ssi ≤
      todo data t.file t.ssi := by
    rw [hsent.ssi_eq]
    unfold todo
    omega
  have hnext : Between data all (t.writeParsed env data).file t.ssi ∧
      Fills (pending data t.file t.ssi) more (pending data (t.writeParsed env data).file t.ssi) := by
    cases h.between with
    | fresh _ hle => omega
    | serving hs =>
      have hindex : t.ssi.tagIndex = 0 := by
        have heq := hs.parsed_eq
        have hstart := hs.started_lt
        rcases hs.place with ⟨-, hindex⟩ | hplace
        · exact hindex
        · omega
      rw [hs.parsed_eq] at hle hfills'
      rw [pending_serving hs.state, pending_serving hs.state]
      exact ⟨.serving { hs with place := Or.inl ⟨hle, hindex⟩ }, hfills' _⟩
    | done hstate hzero heq =>
      rw [heq, slice_to_end, slice_to_end] at hfills'
      rw [pending_done hstate hzero, pending_done hstate hzero]
      exact ⟨.done hstate hzero heq, hfills' []⟩
  refine ⟨by rw [hsent.ssi_eq]; exact hnext.1, hsent.left_eq,
    ⟨acts ++ more, by rw [hmore, hacts, List.append_assoc], ?_⟩, Nat.le_trans htodo h.todo_le⟩
  rw [hsent.ssi_eq]
  exact hfills.trans hnext.2

theorem called_leave (hdata : data.length < 4294967296) (h : Called data all s t) :
    Called data all s (t.leave env data) := by
  unfold Sending.leave
  split
  · exact h
  · split
    · exact called_writeParsed hdata h (‹_ ∧ _›).2
    · exact h

theorem called_loop (hfits : env.Fits) (hdata : data.length < 4294967296) (hshort : Short all)
    (h : Called data all s t) (hlen : t.err = .ok → t.len < 65536) :
    ∃ u, While.loop Sending.Goes (Sending.round env data) (t.rounds data) t = some u ∧
      Called data all s u := by
  by_cases hgoes : t.Goes
  · have hshape : Shape data all t.file t.ssi := by
      cases h.between with
      | fresh state parsed_le file_le parse_eq quiet within =>
        exact shape_of_fresh state parsed_le file_le parse_eq quiet within
      | serving hs => exact .serving hs
      | done _ hzero _ => exact absurd hzero hgoes.1
    have hfile : t.file ≤ data.length := by
      have hleft := h.left_eq
      omega
    have hrun : Running data all s t :=
      { shape := hshape, left_eq := h.left_eq, fills := h.fills, todo_le := h.todo_le
        len_ok := fun hok => ⟨hgoes.2.2, hlen hok⟩
        failed := fun hne => absurd hgoes.2.1 hne }
    obtain ⟨u, hloop, hu, hstop⟩ := loop_spec hfits hdata hshort hrun hfile
    refine ⟨u, hloop, between_of_shape hu.shape ?_, hu.left_eq, hu.fills, hu.todo_le⟩
    by_cases hok : u.err = .ok
    · left
      by_contra hleft
      exact hstop ⟨hleft, hok, (hu.len_ok hok).1⟩
    · exact Or.inr (hu.failed hok)
  · exact ⟨t, While.loop_of_not_guard hgoes _, h⟩

theorem called_enter (hdata : data.length < 4294967296) (h : Between data all s.file s.ssi)
    (hleft : s.file + s.left = data.length) :
    Called data all s (s.enter env data).1 ∧
      ((s.enter env data).1.err = .ok → (s.enter env data).1.len < 65536) := by
  have hbuf := (env.tcpSndbuf s.w).toNat_lt
  generalize ht : ({ s with
    len := (env.tcpSndbuf s.w).toNat, err := .ok, dataToSend := false } : Sending W) = t
  have hstart : Called data all s t := by
    rw [← ht]
    exact ⟨h, hleft, ⟨[], by simp, Fills.refl _⟩, Nat.le_refl _⟩
  have henter : s.enter env data =
      if t.file < t.ssi.parsed then
        (t.writeParsed env data, decide (env.tcpSndbuf (t.writeParsed env data).w = 0))
      else (t, false) := by
    rw [← ht]
    rfl
  rw [henter]
  split
  · rename_i hfile
    have hcalled : Called data all s (t.writeParsed env data) := called_writeParsed hdata hstart hfile
    refine ⟨hcalled, ?_⟩
    obtain ⟨len, hlen, hwrite⟩ := writeParsed_eq env data (Nat.le_of_lt hfile)
    have htbuf := (env.tcpSndbuf t.w).toNat_lt
    intro hok
    rw [hwrite] at hok ⊢
    by_cases herr : (httpWrite env t.w (data.drop t.file) len).err = .ok
    · have hle := (httpWrite_ok herr).len_le
      rw [wrote_ok herr]
      simp only
      omega
    · rw [wrote_failed herr] at hok
      exact absurd hok herr
  · refine ⟨hstart, fun _ => ?_⟩
    rw [← ht]
    exact hbuf

/-- A call sends the next part of the page, however TCP takes it. -/
theorem sendDataSsi_spec (hfits : env.Fits) (hdata : data.length < 4294967296) (hshort : Short all)
    (h : Between data all s.file s.ssi) (hleft : s.file + s.left = data.length) :
    ∃ t, s.sendDataSsi env data = some t ∧ Called data all s t := by
  have henter : Called data all s (s.enter env data).1 ∧
      ((s.enter env data).1.err = .ok → (s.enter env data).1.len < 65536) :=
    called_enter hdata h hleft
  obtain ⟨hcalled, hlen⟩ := henter
  unfold Sending.sendDataSsi
  simp only
  split
  · exact ⟨_, rfl, hcalled⟩
  · obtain ⟨u, hloop, hu⟩ := called_loop hfits hdata hshort hcalled hlen
    exact ⟨u.leave env data, by rw [hloop]; rfl, called_leave hdata hu⟩

end Call

/-! ## A call with room -/

/-- TCP has a buffer that is not full, and memory for what fits into it. -/
structure Env.Room (env : Env W) (w : W) : Prop where
  sndbuf : env.tcpSndbuf w ≠ 0
  mss : env.tcpMss w ≠ 0
  takes : ∀ l : List UInt8, l.length ≤ (env.tcpSndbuf w).toNat → (env.tcpWrite w l).1 = .ok

def EndsInTag (all : List (Piece UInt8 (List UInt8))) : Prop :=
  ∃ t raw, [.tag t raw, .text []] <:+ all

section Progress

variable {s t : Sending W}

theorem toNat_ne_zero {n : UInt16} (h : n ≠ 0) : n.toNat ≠ 0 :=
  fun hzero => h (UInt16.toNat.inj hzero)

theorem httpWrite_room {w : W} (h : env.Room w) (ptr : List UInt8) (len : Nat)
    (hlen : len ≤ (env.tcpSndbuf w).toNat) : (httpWrite env w ptr len).err = .ok := by
  have htake : (ptr.take len).length ≤ (env.tcpSndbuf w).toNat := by
    rw [List.length_take]
    omega
  have hok := h.takes _ htake
  unfold httpWrite
  split
  · rfl
  · rw [httpWriteLoop]
    split
    · rfl
    · rename_i heq
      rw [heq] at hok
      exact absurd hok (by simp)
    · rename_i hne _ heq
      rw [heq] at hok
      exact absurd hok hne

theorem round_ok (hroom : env.Room s.w) (hlen : s.len = (env.tcpSndbuf s.w).toNat)
    (hok : s.err = .ok) (h : Between data all s.file s.ssi) (hgoes : s.Goes)
    (hfile : ¬s.file < s.ssi.parsed) : (s.round env data).err = .ok := by
  cases h with
  | fresh hstate =>
    simp only [Sending.round, hstate, Sending.tagNone]
    split <;> exact hok
  | serving hs =>
    rw [Sending.round, hs.state]
    simp only [Sending.tagSending]
    have hparsed := hs.parsed_eq
    split
    · -- The text in front of the tag is sent already.
      have hstart : s.file = s.ssi.tagStarted := by
        rcases hs.place with ⟨hle, -⟩ | hend <;> omega
      have hzero : (if ((s.ssi.tagStarted : Int) - s.file < s.len) then
          u16 ((s.ssi.tagStarted : Int) - s.file) else s.len) = 0 := by
        have hne := hgoes.2.2
        unfold u16
        split <;> omega
      rw [Sending.writeBefore, hzero]
      rfl
    · split
      · have hwrite := httpWrite_room hroom (s.ssi.tagInsert.bytes.drop s.ssi.tagIndex)
          (min s.len (s.ssi.tagInsertLen - s.ssi.tagIndex)) (by omega)
        rw [if_pos hwrite]
      · exact hok
  | done _ hzero => exact absurd hzero hgoes.1

theorem loop_progress (hfits : env.Fits) (hdata : data.length < 4294967296) (hshort : Short all)
    (h : Running data all t t) (hgoes : t.Goes) (hfirst : (t.round env data).err = .ok)
    {u : Sending W}
    (hloop : While.loop Sending.Goes (Sending.round env data) (t.rounds data) t = some u) :
    todo data u.file u.ssi < todo data t.file t.ssi := by
  -- No round takes back what the first one did.
  have hinv := While.loop_invariant
    (I := fun v => Running data all t v ∧ (v = t ∨ todo data v.file v.ssi < todo data t.file t.ssi))
    ?_ ⟨h, Or.inl rfl⟩ hloop
  · obtain ⟨⟨-, rfl | hlt⟩, hstop⟩ := hinv
    · exact absurd hgoes hstop
    · exact hlt
  · rintro v ⟨hv, hdone⟩ hvgoes
    obtain ⟨hnext, hrank⟩ := running_round hfits hdata hshort hv hvgoes
    have htodo := todo_of_rank hvgoes hrank
    refine ⟨hnext, Or.inr ?_⟩
    rcases hdone with rfl | hlt
    · exact htodo.2 hfirst
    · exact Nat.lt_of_le_of_lt htodo.1 hlt

theorem called_self (h : Between data all t.file t.ssi) (hleft : t.file + t.left = data.length) :
    Called data all t t :=
  ⟨h, hleft, ⟨[], by simp, Fills.refl _⟩, Nat.le_refl _⟩

theorem running_self (h : Between data all t.file t.ssi) (hleft : t.file + t.left = data.length)
    (hgoes : t.Goes) (hlen : t.len < 65536) : Running data all t t where
  shape := by
    cases h with
    | fresh state parsed_le file_le parse_eq quiet within =>
      exact shape_of_fresh state parsed_le file_le parse_eq quiet within
    | serving hs => exact .serving hs
    | done _ hzero _ => exact absurd hzero hgoes.1
  left_eq := hleft
  len_ok := fun _ => ⟨hgoes.2.2, hlen⟩
  failed := fun hne => absurd hgoes.2.1 hne
  fills := ⟨[], by simp, Fills.refl _⟩
  todo_le := Nat.le_refl _

theorem parseLeft_ne_zero (hend : ¬EndsInTag all) {file left : Nat} {ssi : SsiState}
    (h : Between data all file ssi) (hleft : file + left = data.length) (hopen : left ≠ 0)
    (hfile : ¬file < ssi.parsed) : ssi.parseLeft ≠ 0 := by
  cases h with
  | fresh _ hle _ hparse => omega
  | serving hs =>
    intro hzero
    have hparse := hs.parse_eq
    obtain ⟨t, raw, hwithin⟩ := hs.within
    have hnil : piecesFrom data ssi.tagEnd = [.text []] := by
      rw [piecesFrom, List.drop_eq_nil_of_le (by omega)]
      rfl
    rw [hnil] at hwithin
    exact hend ⟨t, raw, hwithin⟩
  | done _ _ heq => omega

/-- A call in which TCP has room gets the page nearer to its end, unless it is there. -/
theorem sendDataSsi_progress (hfits : env.Fits) (hdata : data.length < 4294967296)
    (hshort : Short all) (hend : ¬EndsInTag all) (hroom : env.Room s.w)
    (h : Between data all s.file s.ssi) (hleft : s.file + s.left = data.length)
    (hopen : s.left ≠ 0) (hcall : s.sendDataSsi env data = some t) :
    todo data t.file t.ssi < todo data s.file s.ssi := by
  have hbuf := (env.tcpSndbuf s.w).toNat_lt
  have hbufne := toNat_ne_zero hroom.sndbuf
  have hmssne := toNat_ne_zero hroom.mss
  generalize hv : ({ s with
    len := (env.tcpSndbuf s.w).toNat, err := .ok, dataToSend := false } : Sending W) = v
  have hself : Between data all v.file v.ssi ∧ v.file + v.left = data.length ∧
      todo data v.file v.ssi = todo data s.file s.ssi := by
    rw [← hv]
    exact ⟨h, hleft, rfl⟩
  obtain ⟨hbetween, hvleft, htodo⟩ := hself
  rw [← htodo]
  have hcalled := called_self hbetween hvleft
  have henter : s.enter env data =
      if v.file < v.ssi.parsed then
        (v.writeParsed env data, decide (env.tcpSndbuf (v.writeParsed env data).w = 0))
      else (v, false) := by
    rw [← hv]
    rfl
  rw [Sending.sendDataSsi, henter] at hcall
  by_cases hfile : v.file < v.ssi.parsed
  · -- Text that is parsed is sent first.
    rw [if_pos hfile] at hcall
    obtain ⟨len, hlen, hwrite⟩ := writeParsed_eq env data (Nat.le_of_lt hfile)
    have hvw : v.w = s.w := by
      rw [← hv]
    rw [hvw] at hlen hwrite
    have hok := httpWrite_room hroom (data.drop v.file) len (by omega)
    have hpos := (httpWrite_ok hok).len_pos (by omega)
    have hle := (httpWrite_ok hok).len_le
    have hsent : Called data all v (v.writeParsed env data) := called_writeParsed hdata hcalled hfile
    have hx : (v.writeParsed env data).file =
          v.file + (httpWrite env s.w (data.drop v.file) len).len ∧
        (v.writeParsed env data).ssi = v.ssi ∧ (v.writeParsed env data).len < 65536 := by
      rw [hwrite, wrote_ok hok]
      exact ⟨rfl, rfl, by simp only; omega⟩
    generalize v.writeParsed env data = x at hcall hsent hx
    obtain ⟨hxfile, hxssi, hxlen⟩ := hx
    have hxleft := hsent.left_eq
    have hnear : todo data x.file x.ssi < todo data v.file v.ssi := by
      rw [hxssi]
      unfold todo
      omega
    have hself := called_self hsent.between hxleft
    simp only at hcall
    split at hcall
    · rw [← Option.some.inj hcall]
      exact hnear
    · obtain ⟨u, hloop, hu⟩ : ∃ u, While.loop Sending.Goes (Sending.round env data) (x.rounds data) x =
          some u ∧ Called data all x u := called_loop hfits hdata hshort hself fun _ => hxlen
      rw [hloop] at hcall
      rw [← Option.some.inj hcall]
      exact Nat.lt_of_le_of_lt (called_leave hdata hu).todo_le hnear
  · -- The first round of the loop gets nearer, and no later one goes back.
    rw [if_neg hfile] at hcall
    have hfacts : v.w = s.w ∧ v.left = s.left ∧ v.err = .ok ∧
        v.len = (env.tcpSndbuf s.w).toNat := by
      rw [← hv]
      exact ⟨rfl, rfl, rfl, rfl⟩
    obtain ⟨hw, hleftv, herr, hlen⟩ := hfacts
    have hgoes : v.Goes :=
      ⟨parseLeft_ne_zero hend hbetween hvleft (by omega) hfile, herr, by omega⟩
    have hfirst : (v.round env data).err = .ok :=
      round_ok (hw ▸ hroom) (by rw [hlen, hw]) herr hbetween hgoes hfile
    obtain ⟨u, hloop, hu⟩ : ∃ u, While.loop Sending.Goes (Sending.round env data) (v.rounds data) v =
        some u ∧ Called data all v u := called_loop hfits hdata hshort hcalled fun _ => by omega
    have hless := loop_progress hfits hdata hshort
      (running_self hbetween hvleft hgoes (by omega)) hgoes hfirst hloop
    have hleave : Called data all u (u.leave env data) :=
      called_leave hdata (called_self hu.between hu.left_eq)
    simp only [Bool.false_eq_true, if_false, hloop, Option.map_some] at hcall
    rw [← Option.some.inj hcall]
    exact Nat.lt_of_le_of_lt hleave.todo_le hless

end Progress

end Lrndis.Http
