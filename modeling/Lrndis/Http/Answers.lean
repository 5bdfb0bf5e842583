import Lrndis.Lib.Text
import Lrndis.Http.Progress
import Lrndis.Http.Segments

/-!
# The answers of the application

What stands in the place of a tag is what the handler returned for it, or the text for a
tag that nobody knows.
-/

namespace Lrndis.Http

open Mem CString Template

variable {W : Type} {env : Env W}

/-! ## What a tag is replaced by -/

/-- The name as C has it, up to a NUL. -/
def cName (name : List UInt8) : List UInt8 := name.takeWhile (· ≠ 0)

/-- What a tag may be replaced by while the world is `w`. -/
def Env.Inserts (env : Env W) (w : W) (name a : List UInt8) : Prop :=
  match env.ppcTags.findIdx? (· = cName name) with
  | some i =>
    ∃ insert, a = (env.ssiHandler w i insert lwipHttpdMaxTagInsertLen).2.1.bytes.take
      (env.ssiHandler w i insert lwipHttpdMaxTagInsertLen).1.toNat
  | none => a = unknownTag1Text ++ cName name ++ unknownTag2Text

section Inserts

theorem read_of_terminated {n k : Nat} (b : Buffer n) (h : b.byte k = 0) (hk : k < n) :
    CString.read b 0 = (b.bytes.take k).takeWhile (· ≠ 0) := by
  have hsplit : b.bytes = b.bytes.take k ++ 0 :: b.bytes.drop (k + 1) := by
    conv_lhs => rw [← List.take_append_drop k b.bytes]
    rw [drop_eq_byteAt_cons b.bytes k (by rwa [Buffer.length_bytes])]
    exact congrArg (fun c => b.bytes.take k ++ c :: b.bytes.drop (k + 1)) h
  rw [CString.read, List.drop_zero]
  conv_lhs => rw [hsplit]
  exact Text.takeWhile_append_sep _ _

theorem unknown_insert (b : Buffer (lwipHttpdMaxTagInsertLen + 1)) {name : List UInt8}
    (hname : 0 ∉ name) (hlen : name.length ≤ lwipHttpdMaxTagNameLen) :
    CString.read ((((b.write 0 unknownTag1Text).write 18 (name.take name.length)).write
        (18 + name.length) unknownTag2Text).setByte (18 + name.length + 7) 0) 0 =
      unknownTag1Text ++ name ++ unknownTag2Text := by
  have hmax : lwipHttpdMaxTagInsertLen = 192 := rfl
  have hshort : lwipHttpdMaxTagNameLen = 8 := rfl
  have h1 : (b.write 0 unknownTag1Text).bytes.take 18 = unknownTag1Text :=
    b.take_write 0 unknownTag1Text (by decide)
  have h2 : ((b.write 0 unknownTag1Text).write 18 name).bytes.take (18 + name.length) =
      unknownTag1Text ++ name := by
    rw [Buffer.take_write _ _ _ (by omega), h1]
  have h3 : (((b.write 0 unknownTag1Text).write 18 name).write (18 + name.length)
      unknownTag2Text).bytes.take (18 + name.length + 7) = unknownTag1Text ++ name ++ unknownTag2Text := by
    have htake := Buffer.take_write ((b.write 0 unknownTag1Text).write 18 name) (18 + name.length)
      unknownTag2Text (by simp only [unknownTag2Text, List.length_cons, List.length_nil]; omega)
    rw [h2] at htake
    exact htake
  rw [List.take_length, read_of_terminated _ (Buffer.byte_setByte_self _ _ _ (by omega)) (by omega),
    take_setByte_before _ _ _ (by omega), h3]
  apply Text.takeWhile_of_not_mem
  have hlead : (0 : UInt8) ∉ unknownTag1Text := by decide
  have htail : (0 : UInt8) ∉ unknownTag2Text := by decide
  simp [hname, hlead, htail]

theorem getTagInsert_inserts (env : Env W) (w : W) {ssi : SsiState}
    (hend : ssi.tagName.byte ssi.tagNameLen = 0) (hlen : ssi.tagNameLen ≤ lwipHttpdMaxTagNameLen) :
    env.Inserts w (ssi.tagName.bytes.take ssi.tagNameLen)
      ((getTagInsert env w ssi).1.tagInsert.bytes.take (getTagInsert env w ssi).1.tagInsertLen) := by
  have hname : CString.read ssi.tagName 0 = cName (ssi.tagName.bytes.take ssi.tagNameLen) :=
    read_of_terminated ssi.tagName hend (Nat.lt_succ_of_le hlen)
  have hshort : (cName (ssi.tagName.bytes.take ssi.tagNameLen)).length ≤ lwipHttpdMaxTagNameLen := by
    apply Nat.le_trans (List.takeWhile_prefix _).length_le
    rw [List.length_take]
    omega
  unfold getTagInsert Env.Inserts
  rw [hname]
  have hzero : 0 ∉ cName (ssi.tagName.bytes.take ssi.tagNameLen) := Text.not_mem_takeWhile _
  generalize cName (ssi.tagName.bytes.take ssi.tagNameLen) = name at hshort hzero
  cases hfind : env.ppcTags.findIdx? (· = name) with
  | some i =>
    simp only [hfind]
    exact ⟨ssi.tagInsert, rfl⟩
  | none =>
    have hmin : min name.length (lwipHttpdMaxTagInsertLen - (18 + 7)) = name.length :=
      Nat.min_eq_left (Nat.le_trans hshort (by decide))
    have htext := unknown_insert ssi.tagInsert hzero hshort
    simp only [hfind, hmin]
    generalize ((((ssi.tagInsert.write 0 unknownTag1Text).write 18 (name.take name.length)).write
      (18 + name.length) unknownTag2Text).setByte (18 + name.length + 7) 0) = insert at htext
    have hread : insert.bytes.take (CString.read insert 0).length = CString.read insert 0 := by
      have hprefix : CString.read insert 0 <+: insert.bytes := by
        rw [CString.read, List.drop_zero]
        exact List.takeWhile_prefix _
      exact (List.prefix_iff_eq_take.mp hprefix).symm
    have hlt : (CString.read insert 0).length < 65536 := by
      rw [htext]
      simp only [List.length_append, unknownTag1Text, unknownTag2Text, List.length_cons,
        List.length_nil]
      have hmax : lwipHttpdMaxTagNameLen = 8 := rfl
      omega
    rw [u16_of_lt hlt, hread, htext]

end Inserts

/-! ## What holds of the world -/

/-- What is true of the world stays true when `httpd.c` sends something. -/
structure Env.Keeps (env : Env W) (P : W → Prop) : Prop where
  tcpWrite : ∀ w l, P w → P (env.tcpWrite w l).2
  tcpClose : ∀ w, P w → P (env.tcpClose w).2
  memMalloc : ∀ w, P w → P (env.memMalloc w).2
  ssiHandler : ∀ w i insert n, P w → P (env.ssiHandler w i insert n).2.2

theorem keeps_and {P Q : W → Prop} (h : env.Keeps P) (h' : env.Keeps Q) :
    env.Keeps fun w => P w ∧ Q w where
  tcpWrite w l hw := ⟨h.tcpWrite w l hw.1, h'.tcpWrite w l hw.2⟩
  tcpClose w hw := ⟨h.tcpClose w hw.1, h'.tcpClose w hw.2⟩
  memMalloc w hw := ⟨h.memMalloc w hw.1, h'.memMalloc w hw.2⟩
  ssiHandler w i insert n hw := ⟨h.ssiHandler w i insert n hw.1, h'.ssiHandler w i insert n hw.2⟩

/-- The worlds from `first` on: those that come from outside, and what sending makes of them. -/
inductive During (env : Env W) (first : W) (calls : List (Call W)) : W → Prop
  | start : During env first calls start
  | outside {w : W} (given : .world w ∈ calls) : During env first calls w
  | tcpWrite {w : W} (l : List UInt8) (before : During env first calls w) :
      During env first calls (env.tcpWrite w l).2
  | tcpClose {w : W} (before : During env first calls w) : During env first calls (env.tcpClose w).2
  | memMalloc {w : W} (before : During env first calls w) :
      During env first calls (env.memMalloc w).2
  | ssiHandler {w : W} (i : Nat) (insert : Buffer (lwipHttpdMaxTagInsertLen + 1)) (n : Nat)
      (before : During env first calls w) : During env first calls (env.ssiHandler w i insert n).2.2

theorem during_keeps (env : Env W) (first : W) (calls : List (Call W)) :
    env.Keeps (During env first calls) where
  tcpWrite _ l h := .tcpWrite l h
  tcpClose _ h := .tcpClose h
  memMalloc _ h := .memMalloc h
  ssiHandler _ i insert n h := .ssiHandler i insert n h

def Answered (env : Env W) (P : W → Prop) (acts : List SendAct) : Prop :=
  ∀ name a, .ask name a ∈ acts → ∃ w, P w ∧ env.Inserts w name a

section Rounds

variable {P : W → Prop} {data : List UInt8} {all : List (Piece UInt8 (List UInt8))} {s t : Sending W}

theorem answered_append {acts more : List SendAct} (h : Answered env P acts)
    (h' : Answered env P more) : Answered env P (acts ++ more) := by
  intro name a hmem
  rcases List.mem_append.mp hmem with hmem | hmem
  · exact h name a hmem
  · exact h' name a hmem

theorem answered_nil : Answered env P [] := fun _ _ hmem => absurd hmem List.not_mem_nil

theorem forall₂_of_answered {acts : List SendAct} (h : Answered env P acts) :
    List.Forall₂ (fun name a => ∃ w, P w ∧ env.Inserts w name a) (asked acts) (answers acts) := by
  induction acts with
  | nil => exact .nil
  | cons e acts ih =>
    have hrest := ih fun name a hmem => h name a (List.mem_cons_of_mem e hmem)
    cases e with
    | put l => exact hrest
    | ask name a => exact .cons (h name a List.mem_cons_self) hrest

structure Telling (env : Env W) (P : W → Prop) (s : Sending W) : Prop where
  world : P s.w
  answered : Answered env P s.acts

theorem keeps_httpWriteLoop (hkeeps : env.Keeps P) {w : W} (hw : P w) (ptr : List UInt8) (len : Nat) :
    P (httpWriteLoop env w ptr len).w ∧ Answered env P (httpWriteLoop env w ptr len).acts := by
  induction len using Nat.strongRecOn generalizing w with
  | ind len ih =>
    have hnext := hkeeps.tcpWrite w (ptr.take len) hw
    rw [httpWriteLoop]
    split
    · rename_i heq
      rw [heq] at hnext
      exact ⟨hnext, fun name a hmem => by simp at hmem⟩
    · rename_i heq
      rw [heq] at hnext
      split
      · rename_i hless
        exact ih _ (lessToSend_lt env hless) hnext
      · exact ⟨hnext, answered_nil⟩
    · rename_i heq
      rw [heq] at hnext
      exact ⟨hnext, answered_nil⟩

theorem keeps_httpWrite (hkeeps : env.Keeps P) {w : W} (hw : P w) (ptr : List UInt8) (len : Nat) :
    P (httpWrite env w ptr len).w ∧ Answered env P (httpWrite env w ptr len).acts := by
  unfold httpWrite
  split
  · exact ⟨hw, answered_nil⟩
  · exact keeps_httpWriteLoop hkeeps hw ptr len

theorem telling_wrote (h : Telling env P s) {r : Written W} (hr : P r.w ∧ Answered env P r.acts)
    (n : Nat) : Telling env P (s.wrote r n) := by
  unfold Sending.wrote
  split
  · exact ⟨hr.1, answered_append h.answered hr.2⟩
  · exact ⟨hr.1, h.answered⟩

theorem telling_writeParsed (hkeeps : env.Keeps P) (h : Telling env P s) :
    Telling env P (s.writeParsed env data) :=
  telling_wrote h (keeps_httpWrite hkeeps h.world _ _) _

theorem telling_writeBefore (hkeeps : env.Keeps P) (h : Telling env P s) :
    Telling env P (s.writeBefore env data) :=
  telling_wrote h (keeps_httpWrite hkeeps h.world _ _) _

theorem keeps_getTagInsert (hkeeps : env.Keeps P) {w : W} (hw : P w) (ssi : SsiState) :
    P (getTagInsert env w ssi).2 ∧ (getTagInsert env w ssi).1.tagName = ssi.tagName ∧
      (getTagInsert env w ssi).1.tagNameLen = ssi.tagNameLen := by
  unfold getTagInsert
  simp only
  split
  · exact ⟨hkeeps.ssiHandler w _ _ _ hw, rfl, rfl⟩
  · exact ⟨hw, rfl, rfl⟩

theorem telling_complete (hkeeps : env.Keeps P) (h : Telling env P s)
    (hend : s.ssi.tagName.byte s.ssi.tagNameLen = 0)
    (hlen : s.ssi.tagNameLen ≤ lwipHttpdMaxTagNameLen) : Telling env P (s.tagComplete env) := by
  obtain ⟨hw, hname, hnameLen⟩ := keeps_getTagInsert hkeeps h.world s.ssi
  have hinserts := getTagInsert_inserts env s.w hend hlen
  refine ⟨hw, answered_append h.answered ?_⟩
  intro name a hmem
  simp only [List.mem_singleton, Act.ask.injEq] at hmem
  obtain ⟨rfl, rfl⟩ := hmem
  rw [hname, hnameLen]
  exact ⟨s.w, h.world, hinserts⟩

theorem telling_round (hkeeps : env.Keeps P) (hrange : s.ssi.InRange) (h : Telling env P s) :
    Telling env P (s.round env data) := by
  have hsame : ∀ ssi, Telling env P { s with ssi := ssi } := fun _ => ⟨h.world, h.answered⟩
  unfold Sending.round
  split
  · unfold Sending.tagNone
    split <;> exact hsame _
  · unfold Sending.tagLeadin
    split
    · exact hsame _
    · split <;> exact hsame _
  · unfold Sending.tagFound
    simp only
    split
    · exact hsame _
    · split
      · split <;> exact hsame _
      · split <;> exact hsame _
  · rename_i hstate
    simp only [SsiState.InRange, hstate] at hrange
    unfold Sending.tagLeadout
    simp only
    split
    · exact hsame _
    · split
      · split
        · have hcomplete := telling_complete hkeeps (hsame s.ssi.next) hrange.2.2.2 hrange.2.2.1
          split
          · exact telling_writeBefore hkeeps hcomplete
          · exact hcomplete
        · exact hsame _
      · exact hsame _
  · unfold Sending.tagSending
    split
    · exact telling_writeBefore hkeeps h
    · split
      · simp only
        have hwrite := keeps_httpWrite hkeeps h.world (s.ssi.tagInsert.bytes.drop s.ssi.tagIndex)
          (min s.len (s.ssi.tagInsertLen - s.ssi.tagIndex))
        split
        · exact ⟨hwrite.1, answered_append h.answered hwrite.2⟩
        · exact ⟨hwrite.1, h.answered⟩
      · exact hsame _

end Rounds

/-! ## Calls -/

section Calls

variable {P : W → Prop} {data : List UInt8} {all : List (Piece UInt8 (List UInt8))} {s t : Sending W}

theorem inRange_of_shape {file : Nat} {ssi : SsiState} (h : Shape data all file ssi) : ssi.InRange := by
  cases h with
  | searching h => exact h.range
  | skipping h =>
    obtain ⟨b, hscan, -⟩ := h.from_start
    exact hscan.range
  | serving h => simp only [SsiState.InRange, h.state]

theorem telling_leave (hkeeps : env.Keeps P) (h : Telling env P s) :
    Telling env P (s.leave env data) := by
  unfold Sending.leave
  split
  · exact h
  · split
    · exact telling_writeParsed hkeeps h
    · exact h

theorem telling_enter (hkeeps : env.Keeps P) (h : Telling env P s) :
    Telling env P (s.enter env data).1 := by
  unfold Sending.enter
  simp only
  split
  · exact telling_writeParsed hkeeps ⟨h.world, h.answered⟩
  · exact ⟨h.world, h.answered⟩

theorem telling_loop (hfits : env.Fits) (hkeeps : env.Keeps P) (hdata : data.length < 4294967296)
    (hshort : Short all) (hbetween : Between data all t.file t.ssi)
    (hleft : t.file + t.left = data.length) (hlen : t.err = .ok → t.len < 65536)
    (h : Telling env P t) {u : Sending W}
    (hloop : While.loop Sending.Goes (Sending.round env data) (t.rounds data) t = some u) :
    Telling env P u := by
  by_cases hgoes : t.Goes
  · have hstart := running_self hbetween hleft hgoes (hlen hgoes.2.1)
    have hround : ∀ v, Running data all t v ∧ Telling env P v → v.Goes →
        Running data all t (v.round env data) ∧ Telling env P (v.round env data) := by
      rintro v ⟨hrunning, htelling⟩ hgo
      exact ⟨(running_round hfits hdata hshort hrunning hgo).1,
        telling_round hkeeps (inRange_of_shape hrunning.shape) htelling⟩
    exact (While.loop_invariant hround ⟨hstart, h⟩ hloop).1.2
  · rw [While.loop_of_not_guard hgoes] at hloop
    rw [← Option.some.inj hloop]
    exact h

theorem telling_sendDataSsi (hfits : env.Fits) (hkeeps : env.Keeps P)
    (hdata : data.length < 4294967296) (hshort : Short all) (hbetween : Between data all s.file s.ssi)
    (hleft : s.file + s.left = data.length) (h : Telling env P s)
    (hcall : s.sendDataSsi env data = some t) : Telling env P t := by
  have henter : Called data all s (s.enter env data).1 ∧
      ((s.enter env data).1.err = .ok → (s.enter env data).1.len < 65536) :=
    called_enter hdata hbetween hleft
  have htelling : Telling env P (s.enter env data).1 := telling_enter hkeeps h
  unfold Sending.sendDataSsi at hcall
  simp only at hcall
  split at hcall
  · rw [← Option.some.inj hcall]
    exact htelling
  · obtain ⟨u, hloop, rfl⟩ := Option.map_eq_some_iff.mp hcall
    exact telling_leave hkeeps (telling_loop hfits hkeeps hdata hshort henter.1.between
      henter.1.left_eq henter.2 htelling hloop)

end Calls

/-! ## Connections -/

section Connections

variable {P : W → Prop} {f : FsFile} {start : Nat} {ssi : Bool} {hs : HttpState}

theorem answered_acts {l : List SendAct} (h : Answered env P l) (out : List Event)
    (hout : acts out = []) : Answered env P (acts (l.map .act ++ out)) := by
  rw [acts_append, acts_map, hout, List.append_nil]
  exact h

theorem keeps_httpSendData (hfits : env.Fits) (hkeeps : env.Keeps P)
    (hshort : Short (page f start ssi)) (h : Held f start ssi hs) {w : W} (hw : P w)
    {d : DataSent W} (hdata : httpSendData env w hs = some d) : P d.w ∧ Answered env P d.acts := by
  unfold httpSendData at hdata
  split at hdata
  · rename_i st hst
    obtain ⟨t, hcall, rfl⟩ := Option.map_eq_some_iff.mp hdata
    have hbytes : hs.data = f.data := by
      rw [HttpState.data, h.handle]
      rfl
    rw [hbytes] at hcall
    have hbetween : Between f.data (page f start ssi) hs.file st := by
      rcases h.state with ⟨hnone, -⟩ | ⟨st', hst', -, hbetween⟩
      · rw [hst] at hnone
        contradiction
      · rw [hst] at hst'
        rw [Option.some.inj hst']
        exact hbetween
    have htelling := telling_sendDataSsi hfits hkeeps (Nat.lt_trans f.length_lt (by decide)) hshort
      hbetween h.left_eq ⟨hw, answered_nil⟩ hcall
    exact ⟨htelling.world, htelling.answered⟩
  · have hwrite : P (httpSendDataNonssi env w hs.data hs.file hs.left).w ∧
        Answered env P (httpSendDataNonssi env w hs.data hs.file hs.left).acts :=
      keeps_httpWrite hkeeps hw _ _
    rw [← Option.some.inj hdata]
    split
    · exact hwrite
    · exact ⟨hwrite.1, answered_nil⟩

theorem keeps_httpSend (hfits : env.Fits) (hkeeps : env.Keeps P)
    (hshort : Short (page f start ssi)) (h : Held f start ssi hs) {w : W} (hw : P w) :
    P (httpSend env w hs).1.w ∧ Answered env P (acts (httpSend env w hs).2.1) := by
  unfold httpSend
  split
  · exact ⟨hkeeps.tcpClose w hw, answered_nil⟩
  · split
    · exact ⟨hw, answered_nil⟩
    · rename_i d hdata
      obtain ⟨hd, hanswered⟩ := keeps_httpSendData hfits hkeeps hshort h hw hdata
      simp only
      split
      · exact ⟨hkeeps.tcpClose d.w hd, answered_acts hanswered _ rfl⟩
      · rw [acts_map]
        exact ⟨hd, hanswered⟩

def Unchanged (P : W → Prop) : Call W → Prop
  | .world w => P w
  | _ => True

def SendsOrClosed (f : FsFile) (start : Nat) (ssi : Bool) (s : Sys W) : Prop :=
  Sends f start ssi s ∨ Closed s

theorem answered_httpSend (hfits : env.Fits) (hkeeps : env.Keeps P)
    (hshort : Short (page f start ssi)) (h : Held f start ssi hs) {w : W} (hw : P w) :
    (P (httpSend env w hs).1.w ∧ SendsOrClosed f start ssi (httpSend env w hs).1) ∧
      Answered env P (acts (httpSend env w hs).2.1) := by
  obtain ⟨hworld, hanswered⟩ := keeps_httpSend hfits hkeeps hshort h hw
  refine ⟨⟨hworld, ?_⟩, hanswered⟩
  cases httpSend_spec hfits hshort h w with
  | goes d hconn _ _ hsent => exact Or.inl ⟨d.hs, hconn, hsent.held⟩
  | ends _ _ _ hconn => exact Or.inr hconn

theorem answered_silent {out : List Event} (h : Silent out) : Answered env P (acts out) := by
  rw [h.acts_eq]
  exact answered_nil

theorem answered_step (hfits : env.Fits) (hkeeps : env.Keeps P)
    (hshort : Short (page f start ssi)) {s : Sys W} {c : Call W}
    (h : P s.w ∧ SendsOrClosed f start ssi s) (hc : Unchanged P c) :
    (P (step env s c).1.w ∧ SendsOrClosed f start ssi (step env s c).1) ∧
      Answered env P (acts (step env s c).2) := by
  obtain ⟨w, conn⟩ := s
  obtain ⟨hw, hstate⟩ := h
  have hclose : (P (httpCloseConn env w).1.w ∧ SendsOrClosed f start ssi (httpCloseConn env w).1) :=
    ⟨hkeeps.tcpClose w hw, Or.inr (closeConn_conn w)⟩
  rcases hstate with ⟨hs, hactive, hheld⟩ | hclosed
  · obtain rfl : conn = .active hs := hactive
    have hother : ∀ retries req, Held f start ssi { hs with retries := retries, req := req } :=
      fun _ _ => ⟨hheld.handle, hheld.read, hheld.left_eq, hheld.state⟩
    have hhandle : hs.handle.isSome := by simp [hheld.handle]
    cases c with
    | world w' => exact ⟨⟨hc, Or.inl ⟨hs, rfl, hheld⟩⟩, answered_nil⟩
    | err => exact ⟨⟨hw, Or.inr (by simp [Closed, step])⟩, answered_nil⟩
    | sent => exact answered_httpSend hfits hkeeps hshort (hother 0 hs.req) hw
    | recv p err =>
      -- What comes in now is dropped, and nothing is asked for.
      simp only [step, httpRecv]
      split
      · refine ⟨hclose, answered_silent (silent_append ?_ (silent_close env w))⟩
        split
        · exact silent_nil
        · exact silent_append (silent_recved p) (silent_freed p)
      · rw [httpRecvData, if_pos hhandle]
        exact ⟨⟨hw, Or.inl ⟨_, rfl, hother hs.retries []⟩⟩,
          answered_silent (silent_append (silent_recved p) (silent_freed hs.req))⟩
    | poll =>
      simp only [step, httpPoll, if_pos hhandle]
      split
      · exact ⟨hclose, answered_silent (silent_close env w)⟩
      · obtain ⟨hnext, hanswered⟩ :=
          answered_httpSend hfits hkeeps hshort (hother (hs.retries + 1) hs.req) hw
        refine ⟨hnext, ?_⟩
        rw [acts_append]
        apply answered_append hanswered
        split <;> exact answered_nil
  · cases conn with
    | active hs => exact absurd rfl (hclosed hs)
    | closing =>
      cases c with
      | world w' => exact ⟨⟨hc, Or.inr hclosed⟩, answered_nil⟩
      | poll => exact ⟨hclose, answered_silent (silent_close env w)⟩
      | _ => exact ⟨⟨hw, Or.inr hclosed⟩, answered_nil⟩
    | gone =>
      cases c with
      | world w' => exact ⟨⟨hc, Or.inr hclosed⟩, answered_nil⟩
      | _ => exact ⟨⟨hw, Or.inr hclosed⟩, answered_nil⟩

theorem answered_run (hfits : env.Fits) (hkeeps : env.Keeps P) (hshort : Short (page f start ssi))
    {s : Sys W} (h : P s.w ∧ SendsOrClosed f start ssi s) {calls : List (Call W)}
    (hcalls : ∀ c ∈ calls, Unchanged P c) :
    P (Run.run (step env) s calls).1.w ∧ Answered env P (acts (Run.run (step env) s calls).2) := by
  induction calls generalizing s with
  | nil => exact ⟨h.1, answered_nil⟩
  | cons c calls ih =>
    obtain ⟨hnext, hanswered⟩ := answered_step hfits hkeeps hshort h (hcalls c List.mem_cons_self)
    obtain ⟨hworld, hrest⟩ := ih hnext fun d hd => hcalls d (List.mem_cons_of_mem c hd)
    rw [Run.run_cons, acts_append]
    exact ⟨hworld, answered_append hanswered hrest⟩

theorem keeps_httpInitFile (hkeeps : env.Keeps P) {w : W} (hw : P w) (hs : HttpState)
    (file : Option FsFile) (is09 tagCheck : Bool) :
    P (httpInitFile env w hs file is09 tagCheck).2 := by
  cases file with
  | none => exact hw
  | some f =>
    cases tagCheck with
    | false => exact hw
    | true => exact hkeeps.memMalloc w hw

theorem answered_answer (hserves : env.Serves) (hkeeps : env.Keeps P) {w : W} {uri : List UInt8}
    (hw : P (httpFindFile env w uri).2.2) {calls : List (Call W)}
    (hcalls : ∀ c ∈ calls, Unchanged P c) :
    P (Run.run (step env) (answer env w uri).1 calls).1.w ∧
      Answered env P (acts ((answer env w uri).2 ++
        (Run.run (step env) (answer env w uri).1 calls).2)) := by
  have hstart : ∃ f start ssi, Short (page f start ssi) ∧
      (P (answer env w uri).1.w ∧ SendsOrClosed f start ssi (answer env w uri).1) ∧
      Answered env P (acts (answer env w uri).2) := by
    have hinit := keeps_httpInitFile hkeeps hw httpStateInit (httpFindFile env w uri).1 false
      (httpFindFile env w uri).2.1
    cases hfile : (httpFindFile env w uri).1 with
    | none =>
      have hempty : Short (page ⟨[], by decide, 0, false⟩ 0 false) := by
        intro t raw hin
        simp [page] at hin
      simp only [answer, hfile]
      exact ⟨_, 0, false, hempty, ⟨hkeeps.tcpClose _ hw, Or.inr (closeConn_conn _)⟩, answered_nil⟩
    | some f =>
      rw [hfile] at hinit
      have hopen : Opened env f := opened_findFile hfile
      obtain ⟨hs', hsame, -, -, -, hheld, -⟩ :=
        httpInitFile_spec hserves hopen (httpFindFile env w uri).2.2
          (rfl : httpStateInit.ssi = none) false (httpFindFile env w uri).2.1
      have hshort := short_page hserves hopen false hs'.ssi.isSome
      simp only [answer, hfile, hsame]
      exact ⟨f, _, _, hshort, answered_httpSend hserves.fits hkeeps hshort hheld hinit⟩
  obtain ⟨f, start, ssi, hshort, hstate, hanswered⟩ := hstart
  obtain ⟨hworld, hrest⟩ := answered_run hserves.fits hkeeps hshort hstate hcalls
  rw [acts_append]
  exact ⟨hworld, answered_append hanswered hrest⟩

/-- All that is filled in for a request is what the handler returns while the world is as the
request left it, or the text for tags that nobody knows. -/
theorem answers_of_request (hserves : env.Serves) (hkeeps : env.Keeps P) {w : W} {uri : List UInt8}
    {segs : List (List ReqPbuf)} {last : List ReqPbuf} (h : Arrives uri segs last)
    (hw : P (httpFindFile env w uri).2.2) {more : List (Call W)} (hmore : ∀ c ∈ more, Unchanged P c) :
    P (Run.run (step env) (httpAccept w) (arrival segs last ++ more)).1.w ∧
      List.Forall₂ (fun name a => ∃ w, P w ∧ env.Inserts w name a)
        (asked (acts (history env w (arrival segs last ++ more))))
        (answers (acts (history env w (arrival segs last ++ more)))) := by
  obtain ⟨hworld, hanswered⟩ := answered_answer hserves hkeeps hw hmore
  rw [Run.run_append, run_arrival env w h, history_arrival env w h, acts_append,
    (silent_arrival segs last).acts_eq, List.nil_append]
  exact ⟨hworld, forall₂_of_answered hanswered⟩

end Connections

end Lrndis.Http
