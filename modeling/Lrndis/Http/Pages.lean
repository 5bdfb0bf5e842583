import Lrndis.Http.Send
import Lrndis.Http.Server

/-!
# What a connection sends

Whatever TCP calls and in whichever order, a connection sends one page from its beginning on,
with the tags replaced in order.
-/

namespace Lrndis.Http

open Mem Template

/-! ## Pages -/

/-- The answer for a file that is sent from `start` on. -/
def page (f : FsFile) (start : Nat) (ssi : Bool) : List (Piece UInt8 (List UInt8)) :=
  if ssi then piecesFrom f.data start else [.text (f.data.drop start)]

def acts (out : List Event) : List SendAct :=
  out.filterMap fun
    | .act a => some a
    | _ => none

def openings (out : List Event) : List (Option FsFile × Nat × Bool) :=
  out.filterMap fun
    | .opened f start ssi => some (f, start, ssi)
    | _ => none

section Events

@[simp] theorem acts_append (out more : List Event) : acts (out ++ more) = acts out ++ acts more :=
  List.filterMap_append

@[simp] theorem openings_append (out more : List Event) :
    openings (out ++ more) = openings out ++ openings more := List.filterMap_append

@[simp] theorem acts_map (l : List SendAct) : acts (l.map .act) = l := by
  simp [acts, List.filterMap_map]

@[simp] theorem openings_map (l : List SendAct) : openings (l.map .act) = [] := by
  simp [openings, List.filterMap_map]

@[simp] theorem acts_freed (p : List ReqPbuf) : acts (freed p) = [] := by
  simp [acts, freed, List.filterMap_map]

@[simp] theorem openings_freed (p : List ReqPbuf) : openings (freed p) = [] := by
  simp [openings, freed, List.filterMap_map]

end Events

/-! ## The state of a page -/

section State

variable {W : Type} {env : Env W} {f : FsFile} {start : Nat} {ssi : Bool} {hs : HttpState}

def remaining (f : FsFile) (hs : HttpState) : List (Piece UInt8 (List UInt8)) :=
  match hs.ssi with
  | some st => pending f.data hs.file st
  | none => [.text (f.data.drop hs.file)]

def effort (f : FsFile) (hs : HttpState) : Nat :=
  match hs.ssi with
  | some st => todo f.data hs.file st
  | none => hs.left

structure Held (f : FsFile) (start : Nat) (ssi : Bool) (hs : HttpState) : Prop where
  handle : hs.handle = some f
  read : fsBytesLeft f = 0
  left_eq : hs.file + hs.left = f.data.length
  state : (hs.ssi = none ∧ ssi = false) ∨
    ∃ st, hs.ssi = some st ∧ ssi = true ∧ Between f.data (page f start ssi) hs.file st

/-- At the end of the file all is sent, except for the insert of a tag with nothing behind it. -/
def Ended (all rest : List (Piece UInt8 (List UInt8))) : Prop :=
  rest = [.text []] ∨ ∃ lost, rest = [.text [], .text lost, .text []] ∧ EndsInTag all

/-- What the files on the server must be like, and the handler of the application. -/
structure Env.Serves (env : Env W) : Prop where
  fits : env.Fits
  short : ∀ name f, (name, f) ∈ env.fsRoot → ∀ is09, Short (piecesFrom f.data (headerLength f is09))
  header : ∀ name f, (name, f) ∈ env.fsRoot →
    ssiScanner.Quiet (f.data.take (headerLength f true))

theorem short_of_length {data : List UInt8} (h : data.length < 65536) (start : Nat) :
    Short (piecesFrom data start) := by
  intro t raw hin
  have hraw := length_raw_le hin
  rw [source_pieces, List.length_append, List.length_drop] at hraw
  have hstart : (Reading.start : Reading Scan UInt8).all.length = 0 := rfl
  omega

theorem ended_of_left (h : Held f start ssi hs) (hleft : hs.left = 0) :
    Ended (page f start ssi) (remaining f hs) := by
  have hfile : hs.file = f.data.length := by
    have := h.left_eq
    omega
  rcases h.state with ⟨hssi, -⟩ | ⟨st, hssi, -, hbetween⟩
  · left
    simp only [remaining, hssi, hfile, List.drop_length]
  · simp only [remaining, hssi]
    cases hbetween with
    | fresh hnone =>
      left
      rw [pending, if_neg (by simp [hnone]), hfile, piecesFrom, List.drop_length]
      split <;> rfl
    | serving hv =>
      -- The file ends in this tag, and its insert is not sent any more.
      right
      have hstart := hv.started_lt
      have hparse := hv.parse_eq
      have hend : st.tagEnd = f.data.length := by
        rcases hv.place with ⟨hle, -⟩ | hplace <;> omega
      have hnil : piecesFrom f.data st.tagEnd = [.text []] := by
        rw [piecesFrom, hend, List.drop_length]
        rfl
      obtain ⟨t, raw, hwithin⟩ := hv.within
      rw [hnil] at hwithin
      refine ⟨slice st.tagInsert.bytes st.tagIndex (st.tagInsertLen - st.tagIndex), ?_, t, raw, hwithin⟩
      rw [pending_serving hv.state, hnil, hfile, Nat.sub_eq_zero_of_le (by omega), slice_zero]
    | done hnot hzero =>
      left
      rw [pending_done hnot hzero, hfile, List.drop_length]

structure Kept (hs hs' : HttpState) : Prop where
  handle_eq : hs'.handle = hs.handle
  retries_eq : hs'.retries = hs.retries
  req_eq : hs'.req = hs.req

structure SentData (env : Env W) (f : FsFile) (start : Nat) (ssi : Bool) (w : W) (hs : HttpState)
    (s : DataSent W) : Prop where
  held : Held f start ssi s.hs
  kept : Kept hs s.hs
  fills : Fills (remaining f hs) s.acts (remaining f s.hs)
  effort_le : effort f s.hs ≤ effort f hs
  effort_lt : env.Room w → hs.left ≠ 0 → ¬EndsInTag (page f start ssi) → effort f s.hs < effort f hs

theorem httpSendDataNonssi_eq (env : Env W) (w : W) (data : List UInt8) (file left : Nat) :
    ∃ len, len = min (if (env.tcpSndbuf w).toNat < left then (env.tcpSndbuf w).toNat else u16 left)
        (2 * (env.tcpMss w).toNat) ∧ len ≤ left ∧ len ≤ (env.tcpSndbuf w).toNat ∧
      httpSendDataNonssi env w data file left = httpWrite env w (data.drop file) len := by
  have hbuf := (env.tcpSndbuf w).toNat_lt
  have hmin : ∀ m n : Nat, (if n < m then n else m) = min m n := by
    intro m n
    split <;> omega
  have hu16 : ¬(env.tcpSndbuf w).toNat < left → u16 left = left := by
    intro hle
    unfold u16
    omega
  refine ⟨_, rfl, ?_, ?_, ?_⟩
  · split
    · omega
    · rename_i hle
      rw [hu16 hle]
      exact Nat.min_le_left _ _
  · split
    · exact Nat.min_le_left _ _
    · rename_i hle
      rw [hu16 hle]
      omega
  · simp only [httpSendDataNonssi, hmin]

theorem nonssi_spec (h : Held f start ssi hs) (hnone : hs.ssi = none) (w : W) :
    ∃ s, httpSendData env w hs = some s ∧ SentData env f start ssi w hs s := by
  have hleft := h.left_eq
  have hdata : f.data.length < 4294967296 := Nat.lt_trans f.length_lt (by decide)
  -- A page with tags has a state for them.
  have hraw : ssi = false := by
    rcases h.state with ⟨-, hraw⟩ | ⟨st, hst, -⟩
    · exact hraw
    · rw [hnone] at hst
      contradiction
  have hbytes : hs.data = f.data := by
    rw [HttpState.data, h.handle]
    rfl
  obtain ⟨len, hlen, hle, hbuf, hr⟩ :=
    httpSendDataNonssi_eq env w f.data hs.file hs.left
  unfold httpSendData
  rw [hnone]
  simp only [hbytes, hr]
  generalize hw : httpWrite env w (f.data.drop hs.file) len = r
  by_cases herr : r.err = .ok
  · have hsome : WroteSome (f.data.drop hs.file) len r := by
      rw [← hw] at herr ⊢
      exact httpWrite_ok herr
    have hsent := hsome.len_le
    have hafter := left_after hleft (n := r.len) (by omega) hdata
    refine ⟨_, rfl, ?_⟩
    rw [if_pos herr]
    refine ⟨⟨h.handle, h.read, hafter, Or.inl ⟨rfl, hraw⟩⟩, ⟨rfl, rfl, rfl⟩, ?_, ?_, ?_⟩
    · simp only [remaining, hnone]
      rw [← slice_to_end, ← slice_to_end, Nat.sub_add_eq]
      exact fills_wrote [] hsome (by omega)
    · simp only [effort, hnone]
      omega
    · intro hroom hopen _
      have hbufne := toNat_ne_zero hroom.sndbuf
      have hmssne := toNat_ne_zero hroom.mss
      have hlt := (env.tcpSndbuf w).toNat_lt
      have hpos : len ≠ 0 := by
        rw [hlen]
        unfold u16
        split <;> omega
      have hsentpos := hsome.len_pos hpos
      simp only [effort, hnone]
      omega
  · refine ⟨_, rfl, ?_⟩
    rw [if_neg herr]
    refine ⟨h, ⟨rfl, rfl, rfl⟩, Fills.refl _, Nat.le_refl _, ?_⟩
    intro hroom
    rw [← hw] at herr
    exact absurd (httpWrite_room hroom _ _ hbuf) herr

theorem httpSendData_spec (hfits : env.Fits) (hshort : Short (page f start ssi))
    (h : Held f start ssi hs) (w : W) :
    ∃ s, httpSendData env w hs = some s ∧ SentData env f start ssi w hs s := by
  rcases h.state with ⟨hssi, -⟩ | ⟨st, hssi, htags, hbetween⟩
  · exact nonssi_spec h hssi w
  · have hdata : f.data.length < 4294967296 := Nat.lt_trans f.length_lt (by decide)
    have hbytes : hs.data = f.data := by
      rw [HttpState.data, h.handle]
      rfl
    unfold httpSendData
    rw [hssi]
    simp only [hbytes]
    generalize hs0 :
      ({ w := w, file := hs.file, left := hs.left, ssi := st, len := 0, err := .ok,
         dataToSend := false, acts := [] } : Sending W) = s0
    have hstart : s0.w = w ∧ s0.file = hs.file ∧ s0.left = hs.left ∧ s0.ssi = st ∧ s0.acts = [] := by
      rw [← hs0]
      exact ⟨rfl, rfl, rfl, rfl, rfl⟩
    obtain ⟨hw0, hfile0, hleft0, hssi0, hacts0⟩ := hstart
    have hbetween0 : Between f.data (page f start ssi) s0.file s0.ssi := by
      rw [hfile0, hssi0]
      exact hbetween
    have hleft : s0.file + s0.left = f.data.length := by
      rw [hfile0, hleft0]
      exact h.left_eq
    obtain ⟨t, hcall, ht⟩ : ∃ t, s0.sendDataSsi env f.data = some t ∧
        Called f.data (page f start ssi) s0 t :=
      sendDataSsi_spec hfits hdata hshort hbetween0 hleft
    obtain ⟨l, hl, hfills⟩ := ht.fills
    have htodo := ht.todo_le
    rw [hacts0, List.nil_append] at hl
    rw [hfile0, hssi0] at hfills htodo
    rw [hcall]
    refine ⟨_, rfl, ⟨h.handle, h.read, ht.left_eq, Or.inr ⟨_, rfl, htags, ht.between⟩⟩,
      ⟨rfl, rfl, rfl⟩, ?_, ?_, ?_⟩
    · simp only [remaining, hssi, hl]
      exact hfills
    · simp only [effort, hssi]
      exact htodo
    · intro hroom hopen hend
      have hless := sendDataSsi_progress hfits hdata hshort hend (hw0 ▸ hroom) hbetween0 hleft
        (hleft0 ▸ hopen) hcall
      rw [hfile0, hssi0] at hless
      simp only [effort, hssi]
      exact hless

/-- A call of `http_send` while a file is sent: it goes on, or the connection is closed. -/
inductive SendOutcome (env : Env W) (f : FsFile) (start : Nat) (ssi : Bool) (w : W) (hs : HttpState)
    (s : Sys W) (out : List Event) : Prop
  | goes (d : DataSent W) (conn : s.conn = .active d.hs) (out_eq : out = d.acts.map .act)
      (left : hs.left ≠ 0) (sent : SentData env f start ssi w hs d)
  | ends (l : List SendAct) (rest : List (Piece UInt8 (List UInt8))) (e : ErrT)
      (conn : ∀ hs', s.conn ≠ .active hs') (out_eq : out = l.map .act ++ [.eof, .close e])
      (fills : Fills (remaining f hs) l rest) (ended : Ended (page f start ssi) rest)

theorem closeConn_conn (w : W) (hs : HttpState) : (httpCloseConn env w).1.conn ≠ .active hs := by
  simp only [httpCloseConn]
  split <;> simp

theorem held_goesOn (h : Held f start ssi hs) : fileGoesOn hs = false := by
  simp [fileGoesOn, h.handle, h.read]

theorem httpSend_spec (hfits : env.Fits) (hshort : Short (page f start ssi))
    (h : Held f start ssi hs) (w : W) :
    SendOutcome env f start ssi w hs (httpSend env w hs).1 (httpSend env w hs).2.1 := by
  unfold httpSend
  split
  · rename_i hleft
    exact .ends [] (remaining f hs) (env.tcpClose w).1 (closeConn_conn w) rfl (Fills.refl _)
      (ended_of_left h hleft.1)
  · rename_i hopen
    obtain ⟨s, hdata, hsent⟩ := httpSendData_spec hfits hshort h w
    rw [hdata]
    simp only
    split
    · rename_i hleft
      exact .ends s.acts (remaining f s.hs) (env.tcpClose s.w).1 (closeConn_conn s.w) rfl hsent.fills
        (ended_of_left hsent.held hleft.1)
    · have hleft : hs.left ≠ 0 := fun hzero => hopen ⟨hzero, held_goesOn h⟩
      exact .goes s rfl rfl hleft hsent

end State

/-! ## What a connection keeps -/

section Kept

variable {W : Type}

def Closed (s : Sys W) : Prop := ∀ hs, s.conn ≠ .active hs

theorem kept_httpSend (env : Env W) (w : W) (hs : HttpState) :
    Closed (httpSend env w hs).1 ∨
      ∃ hs', (httpSend env w hs).1.conn = .active hs' ∧ Kept hs hs' := by
  unfold httpSend
  split
  · exact Or.inl (closeConn_conn w)
  · split
    · exact Or.inr ⟨hs, rfl, rfl, rfl, rfl⟩
    · rename_i d hdata
      simp only
      split
      · exact Or.inl (closeConn_conn d.w)
      · refine Or.inr ⟨d.hs, rfl, ?_⟩
        unfold httpSendData at hdata
        split at hdata
        · obtain ⟨t, -, rfl⟩ := Option.map_eq_some_iff.mp hdata
          exact ⟨rfl, rfl, rfl⟩
        · obtain rfl := Option.some.inj hdata
          split <;> exact ⟨rfl, rfl, rfl⟩

end Kept

/-! ## Files -/

section Files

variable {W : Type} {env : Env W}

theorem strnstrLoop_le {token l : List UInt8} {n i : Nat} (h : strnstrLoop token l n = some i) :
    i + token.length ≤ n := by
  induction l generalizing n i with
  | nil => contradiction
  | cons c l ih =>
    rw [strnstrLoop] at h
    split at h
    · contradiction
    · rename_i hstop
      have hroom : token.length ≤ n := Nat.not_lt.mp fun hlt => hstop (Or.inr hlt)
      split at h
      · obtain rfl := Option.some.inj h
        rwa [Nat.zero_add]
      · rename_i hdiff
        obtain ⟨j, hj, rfl⟩ := Option.map_eq_some_iff.mp h
        have hle := ih hj
        have hpos : token.length ≠ 0 := by
          intro hzero
          rw [List.length_eq_zero_iff.mp hzero] at hdiff
          exact hdiff rfl
        omega

theorem headerLength_le (f : FsFile) (is09 : Bool) : headerLength f is09 ≤ f.data.length := by
  unfold headerLength
  split
  · split
    · rename_i start hstart
      have hne : ¬(crlf ++ crlf).length = 0 := by decide
      rw [strnstr, if_neg hne] at hstart
      exact strnstrLoop_le hstart
    · exact Nat.zero_le _
  · exact Nat.zero_le _

def Opened (env : Env W) (f : FsFile) : Prop :=
  ∃ name g, (name, g) ∈ env.fsRoot ∧ f = { g with index := g.data.length }

theorem opened_fsOpen {name : List UInt8} {f : FsFile} (h : fsOpen env.fsRoot name = some f) :
    Opened env f := by
  obtain ⟨⟨n, g⟩, hfind, rfl⟩ := Option.map_eq_some_iff.mp h
  exact ⟨n, g, List.mem_of_find?_eq_some hfind, rfl⟩

theorem opened_openFirst {α : Type} {names : List (List UInt8 × α)} {r : FsFile × List UInt8 × α}
    (h : openFirst env.fsRoot names = some r) : Opened env r.1 := by
  induction names with
  | nil => contradiction
  | cons n names ih =>
    obtain ⟨name, a⟩ := n
    rw [openFirst] at h
    split at h
    · rename_i f hf
      obtain rfl := Option.some.inj h
      exact opened_fsOpen hf
    · exact ih h

theorem opened_get404 {r : FsFile × List UInt8} (h : httpGet404File env.fsRoot = some r) :
    Opened env r.1 := by
  obtain ⟨q, hq, rfl⟩ := Option.map_eq_some_iff.mp h
  exact opened_openFirst hq

theorem opened_findFile {w : W} {uri : List UInt8} {f : FsFile}
    (h : (httpFindFile env w uri).1 = some f) : Opened env f := by
  unfold httpFindFile at h
  split at h
  · split at h
    · rename_i g name shtml hfirst
      obtain rfl := Option.some.inj h
      exact opened_openFirst hfirst
    · obtain ⟨r, hr, rfl⟩ := Option.map_eq_some_iff.mp h
      exact opened_get404 hr
  · simp only at h
    split at h
    · rename_i g uri' hfound
      obtain rfl := Option.some.inj h
      split at hfound
      · rename_i hopen
        obtain ⟨rfl, -⟩ := Prod.mk.inj (Option.some.inj hfound)
        exact opened_fsOpen hopen
      · exact opened_get404 hfound
    · contradiction

theorem short_page (hserves : env.Serves) {f : FsFile} (hopen : Opened env f) (is09 ssi : Bool) :
    Short (page f (headerLength f is09) ssi) := by
  obtain ⟨name, g, hmem, rfl⟩ := hopen
  cases ssi with
  | false =>
    intro t raw hin
    simp [page] at hin
  | true => exact hserves.short name g hmem is09

theorem quiet_nil : ssiScanner.Quiet [] := rfl

theorem httpInitFile_some (env : Env W) (w : W) {hs : HttpState} (hssi : hs.ssi = none) (f : FsFile)
    (is09 tagCheck : Bool) :
    ∃ tags : Bool, (httpInitFile env w hs (some f) is09 tagCheck).1 =
      { hs with
        handle := some f, file := headerLength f is09, left := f.data.length - headerLength f is09,
        retries := 0,
        ssi := if tags then some { httpSsiStateInit with parseLeft := f.data.length } else none } := by
  have hle := headerLength_le f is09
  have hlt := f.length_lt
  have hleft : u32 ((f.data.length : Int) - headerLength f is09) =
      f.data.length - headerLength f is09 := by
    unfold u32
    omega
  refine ⟨(if tagCheck then env.memMalloc w else (false, w)).1, ?_⟩
  simp only [httpInitFile, hleft, hssi]

theorem httpInitFile_spec (hserves : env.Serves) {f : FsFile} (hopen : Opened env f) (w : W)
    {hs : HttpState} (hssi : hs.ssi = none) (is09 tagCheck : Bool) :
    ∃ hs', (httpInitFile env w hs (some f) is09 tagCheck).1 = hs' ∧ hs'.req = hs.req ∧
      hs'.retries = 0 ∧ hs'.file = headerLength f is09 ∧
      Held f (headerLength f is09) hs'.ssi.isSome hs' ∧
      remaining f hs' = page f (headerLength f is09) hs'.ssi.isSome := by
  have hle := headerLength_le f is09
  have hread : fsBytesLeft f = 0 := by
    obtain ⟨name, g, -, rfl⟩ := hopen
    simp [fsBytesLeft]
  obtain ⟨tags, hinit⟩ := httpInitFile_some env w hssi f is09 tagCheck
  refine ⟨_, hinit, rfl, rfl, rfl, ⟨rfl, hread, by simp only; omega, ?_⟩, ?_⟩
  · cases tags with
    | false => exact Or.inl ⟨rfl, rfl⟩
    | true =>
      refine Or.inr ⟨_, rfl, rfl,
        .fresh rfl (Nat.zero_le _) hle (Nat.zero_add _) ?_ (List.suffix_refl _)⟩
      cases is09 with
      | false =>
        have hzero : headerLength f false = 0 := by
          simp [headerLength]
        rw [hzero]
        exact quiet_nil
      | true =>
        obtain ⟨name, g, hmem, rfl⟩ := hopen
        exact hserves.header name g hmem
  · cases tags with
    | false => rfl
    | true =>
      simp only [remaining, if_true, page, Option.isSome_some]
      rw [pending, if_neg (by simp [httpSsiStateInit])]
      split
      · rename_i hzero
        have hnil : f.data = [] := List.length_eq_zero_iff.mp hzero
        simp only [hnil, piecesFrom, List.drop_nil]
        rfl
      · rfl

end Files

/-! ## Documents -/

section Documents

variable {f : FsFile} {start : Nat} {doc : List (Piece UInt8 (List UInt8))} {l : List UInt8}

theorem written_doc (h : ∀ p ∈ doc, WellFormed p) : ∀ p ∈ doc, ssiScanner.Written p :=
  fun p hp => written_of_wellFormed (h p hp)

/-- The tags of a document are found, and nothing else. -/
theorem page_document (hdoc : ∀ p ∈ doc, WellFormed p) (hdata : f.data.drop start = source doc) :
    (∀ as, fill (page f start true) as = fill doc as) ∧ tags (page f start true) = tags doc := by
  rw [page, if_pos rfl, piecesFrom, hdata]
  exact ⟨fill_pieces_source (written_doc hdoc), tags_pieces_source (written_doc hdoc)⟩

theorem page_not_endsInTag (hdoc : ∀ p ∈ doc ++ [.text l], WellFormed p) (hl : l ≠ [])
    (hdata : f.data.drop start = source (doc ++ [.text l])) : ¬EndsInTag (page f start true) := by
  have hwritten := written_doc hdoc
  have hbefore : ∀ p ∈ doc, ssiScanner.Written p := fun p hp => hwritten p (List.mem_append_left _ hp)
  have hlast : ssiScanner.Quiet l := hwritten (.text l) (List.mem_append_right _ List.mem_cons_self)
  obtain ⟨ps, t, hpieces⟩ := pieces_last hbefore hlast
  have hsource : source (doc ++ [.text l]) = source doc ++ l := by
    rw [source_append]
    simp [source]
  rintro ⟨name, raw, hsuffix⟩
  rw [page, if_pos rfl, piecesFrom, hdata, hsource, hpieces] at hsuffix
  have hend : [Piece.text ([] : List UInt8)] <:+ ps ++ [.text (t ++ l)] :=
    (List.suffix_cons (Piece.tag name raw) _).trans hsuffix
  obtain ⟨qs, hqs⟩ := hend
  have htext := (List.append_inj' hqs rfl).2
  simp only [List.cons.injEq, Piece.text.injEq, and_true] at htext
  exact hl (List.append_eq_nil_iff.mp htext.symm).2

end Documents

end Lrndis.Http
