import Lrndis.Http.Pages

/-!
# Runs of a connection

From `http_accept` on, in whichever order TCP calls: at most one file is opened, what is sent is
the beginning of its page, and at the end of the file it is all of it.
-/

namespace Lrndis.Http

open Mem Template

variable {W : Type} {env : Env W}

/-! ## What a connection has done so far -/

structure Silent (out : List Event) : Prop where
  openings_eq : openings out = []
  acts_eq : acts out = []
  eof_not_mem : .eof ∉ out
  hang_not_mem : .hang ∉ out

structure Opening (env : Env W) (out : List Event) (f : FsFile) (start : Nat) (ssi : Bool) : Prop where
  only : openings out = [(some f, start, ssi)]
  known : Opened env f
  start_eq : ∃ is09, start = headerLength f is09

structure Idle (hs : HttpState) : Prop where
  handle : hs.handle = none
  left : hs.left = 0
  ssi : hs.ssi = none

/-- What was done on a connection that is closed. -/
inductive Told (env : Env W) (out : List Event) : Prop
  | nothing (openings_eq : openings out = []) (acts_eq : acts out = [])
  /-- There was no file, not even for the error. -/
  | missing (only : openings out = [(none, 0, false)]) (acts_eq : acts out = [])
  | sent (f : FsFile) (start : Nat) (ssi : Bool) (opening : Opening env out f start ssi)
      (rest : List (Piece UInt8 (List UInt8))) (fills : Fills (page f start ssi) (acts out) rest)
      (ended : .eof ∈ out → Ended (page f start ssi) rest)

inductive Story (env : Env W) (out : List Event) : Conn → Prop
  | waiting {hs : HttpState} (idle : Idle hs) (silent : Silent out) : Story env out (.active hs)
  | sending {hs : HttpState} (f : FsFile) (start : Nat) (ssi : Bool)
      (opening : Opening env out f start ssi) (held : Held f start ssi hs)
      (fills : Fills (page f start ssi) (acts out) (remaining f hs)) (goes_on : .eof ∉ out) :
      Story env out (.active hs)
  | finished {c : Conn} (closed : ∀ hs, c ≠ .active hs) (told : Told env out) : Story env out c

/-! ## Steps -/

section Steps

variable {out more : List Event} {hs hs' : HttpState} {c : Conn}

theorem silent_append (h : Silent out) (h' : Silent more) : Silent (out ++ more) where
  openings_eq := by rw [openings_append, h.openings_eq, h'.openings_eq, List.nil_append]
  acts_eq := by rw [acts_append, h.acts_eq, h'.acts_eq, List.nil_append]
  eof_not_mem := by simp [h.eof_not_mem, h'.eof_not_mem]
  hang_not_mem := by simp [h.hang_not_mem, h'.hang_not_mem]

theorem silent_nil : Silent [] := ⟨rfl, rfl, List.not_mem_nil, List.not_mem_nil⟩

theorem silent_close (env : Env W) (w : W) : Silent (httpCloseConn env w).2 := by
  constructor <;> simp [httpCloseConn, openings, acts]

theorem silent_freed (p : List ReqPbuf) : Silent (freed p) := by
  constructor <;> simp [freed, openings, acts, List.filterMap_map]

theorem silent_recved (p : List ReqPbuf) : Silent [recved p] := by
  constructor <;> simp [recved, openings, acts]

theorem opening_append {f : FsFile} {start : Nat} {ssi : Bool} (h : Opening env out f start ssi)
    (hmore : openings more = []) : Opening env (out ++ more) f start ssi where
  only := by rw [openings_append, h.only, hmore, List.append_nil]
  known := h.known
  start_eq := h.start_eq

theorem told_append (h : Told env out) (hmore : Silent more) : Told env (out ++ more) := by
  cases h with
  | nothing hopenings hacts =>
    refine .nothing ?_ ?_
    · rw [openings_append, hopenings, hmore.openings_eq, List.append_nil]
    · rw [acts_append, hacts, hmore.acts_eq, List.append_nil]
  | missing honly hacts =>
    refine .missing ?_ ?_
    · rw [openings_append, honly, hmore.openings_eq, List.append_nil]
    · rw [acts_append, hacts, hmore.acts_eq, List.append_nil]
  | sent f start ssi hopening rest hfills hended =>
    refine .sent f start ssi (opening_append hopening hmore.openings_eq) rest ?_ ?_
    · rw [acts_append, hmore.acts_eq, List.append_nil]
      exact hfills
    · intro heof
      exact hended ((List.mem_append.mp heof).resolve_right hmore.eof_not_mem)

theorem told_of_story (h : Story env out c) : Told env out := by
  cases h with
  | waiting hidle hsilent => exact .nothing hsilent.openings_eq hsilent.acts_eq
  | sending f start ssi hopening hheld hfills hgoes =>
    exact .sent f start ssi hopening _ hfills fun heof => absurd heof hgoes
  | finished hclosed htold => exact htold

theorem openings_le_of_told (h : Told env out) : (openings out).length ≤ 1 := by
  cases h with
  | nothing hopenings => simp [hopenings]
  | missing honly => simp [honly]
  | sent f start ssi hopening => simp [hopening.only]

theorem story_close (h : Story env out c) (hmore : Silent more) {c' : Conn}
    (hclosed : ∀ hs, c' ≠ .active hs) : Story env (out ++ more) c' :=
  .finished hclosed (told_append (told_of_story h) hmore)

theorem story_silent (h : Story env out c) (hmore : Silent more) : Story env (out ++ more) c := by
  cases h with
  | waiting hidle hsilent => exact .waiting hidle (silent_append hsilent hmore)
  | sending f start ssi hopening hheld hfills hgoes =>
    refine .sending f start ssi (opening_append hopening hmore.openings_eq) hheld ?_ ?_
    · rw [acts_append, hmore.acts_eq, List.append_nil]
      exact hfills
    · simp [hgoes, hmore.eof_not_mem]
  | finished hclosed htold => exact .finished hclosed (told_append htold hmore)

theorem story_same (h : Story env out (.active hs)) (hhandle : hs'.handle = hs.handle)
    (hfile : hs'.file = hs.file) (hleft : hs'.left = hs.left) (hssi : hs'.ssi = hs.ssi) :
    Story env out (.active hs') := by
  cases h with
  | waiting hidle hsilent =>
    exact .waiting ⟨hhandle.trans hidle.handle, hleft.trans hidle.left, hssi.trans hidle.ssi⟩ hsilent
  | sending f start ssi hopening hheld hfills hgoes =>
    have hremaining : remaining f hs' = remaining f hs := by
      simp only [remaining, hfile, hssi]
    refine .sending f start ssi hopening ⟨hhandle.trans hheld.handle, hheld.read, ?_, ?_⟩
      (hremaining ▸ hfills) hgoes
    · rw [hfile, hleft]
      exact hheld.left_eq
    · rw [hfile, hssi]
      exact hheld.state
  | finished hclosed => exact absurd rfl (hclosed hs)

theorem story_send (hserves : env.Serves) {f : FsFile} {start : Nat} {ssi : Bool}
    (hopening : Opening env out f start ssi) (hheld : Held f start ssi hs)
    (hfills : Fills (page f start ssi) (acts out) (remaining f hs)) (hgoes : .eof ∉ out) (w : W) :
    Story env (out ++ (httpSend env w hs).2.1) (httpSend env w hs).1.conn ∧
      .hang ∉ (httpSend env w hs).2.1 := by
  obtain ⟨is09, hstart⟩ := hopening.start_eq
  have hshort : Short (page f start ssi) := hstart ▸ short_page hserves hopening.known is09 ssi
  have hsend : SendOutcome env f start ssi w hs (httpSend env w hs).1 (httpSend env w hs).2.1 :=
    httpSend_spec hserves.fits hshort hheld w
  cases hsend with
  | goes d hconn hout _ hsent =>
    rw [hconn, hout]
    constructor
    · refine .sending f start ssi (opening_append hopening (openings_map d.acts)) hsent.held ?_
        (by simp [hgoes])
      rw [acts_append, acts_map]
      exact hfills.trans hsent.fills
    · simp
  | ends l rest e hconn hout hl hended =>
    rw [hout]
    constructor
    · refine .finished hconn (.sent f start ssi (opening_append hopening ?_) rest ?_ fun _ => hended)
      · rw [openings_append, openings_map]
        rfl
      · rw [acts_append, acts_append, acts_map]
        exact hfills.trans (by simpa [acts] using hl)
    · simp

/-- The pcb may also be called back when there is nothing to send yet. -/
theorem story_httpSend (hserves : env.Serves) (h : Story env out (.active hs)) (w : W) :
    Story env (out ++ (httpSend env w hs).2.1) (httpSend env w hs).1.conn ∧
      .hang ∉ (httpSend env w hs).2.1 := by
  cases h with
  | waiting hidle hsilent =>
    simp only [httpSend, fileGoesOn, hidle.handle, hidle.left, Option.any_none, and_self, if_true]
    constructor
    · refine .finished (closeConn_conn w) (.nothing ?_ ?_)
      · rw [openings_append, hsilent.openings_eq]
        rfl
      · rw [acts_append, hsilent.acts_eq]
        rfl
    · simp [httpEof, httpCloseConn]
  | sending f start ssi hopening hheld hfills hgoes =>
    exact story_send hserves hopening hheld hfills hgoes w
  | finished hclosed => exact absurd rfl (hclosed hs)

theorem parseRequest_cases (env : Env W) (hnone : hs.handle = none) (w : W) (p : List ReqPbuf) :
    (∃ uri is09, parseRequest (requestData (hs.req ++ p)) = .get uri is09 ∧
        httpParseRequest env w hs p =
          (.ok, httpInitFile env (httpFindFile env w uri).2.2 { hs with req := hs.req ++ p }
            (httpFindFile env w uri).1 is09 (httpFindFile env w uri).2.1)) ∨
      httpParseRequest env w hs p = (.inprogress, { hs with req := hs.req ++ p }, w) ∨
      httpParseRequest env w hs p = (.arg, { hs with req := hs.req ++ p }, w) := by
  have hsome : ¬hs.handle.isSome := by simp [hnone]
  unfold httpParseRequest
  rw [if_neg hsome]
  simp only
  cases hreq : parseRequest (requestData (hs.req ++ p)) with
  | get uri is09 => exact Or.inl ⟨uri, is09, rfl, rfl⟩
  | bad => exact Or.inr (Or.inr rfl)
  | more =>
    right
    simp only
    split
    · exact Or.inl rfl
    · exact Or.inr rfl

theorem story_open (hserves : env.Serves) (hidle : Idle hs) (hsilent : Silent out) {w : W}
    {uri : List UInt8} {file : Option FsFile} (hfile : (httpFindFile env w uri).1 = file) {w' : W}
    {is09 tagCheck : Bool} {r : HttpState × W} (hr : httpInitFile env w' hs file is09 tagCheck = r) :
    Story env
        (out ++ .opened r.1.handle r.1.file r.1.ssi.isSome ::
          (httpSend env r.2 { r.1 with req := [] }).2.1)
        (httpSend env r.2 { r.1 with req := [] }).1.conn ∧
      .hang ∉ (httpSend env r.2 { r.1 with req := [] }).2.1 := by
  cases file with
  | none =>
    -- There is nothing to send, and the connection is closed at once.
    have hssi := hidle.ssi
    rw [← hr]
    simp only [httpInitFile, httpSend, fileGoesOn, Option.any_none, hssi, Option.isSome_none]
    constructor
    · refine .finished (closeConn_conn w') (.missing ?_ ?_)
      · rw [openings_append, hsilent.openings_eq]
        rfl
      · rw [acts_append, hsilent.acts_eq]
        rfl
    · simp [httpEof, httpCloseConn]
  | some f =>
    have hopen : Opened env f := opened_findFile hfile
    obtain ⟨hs', hinit, -, -, hstart, hheld, hremaining⟩ :=
      httpInitFile_spec hserves hopen w' hidle.ssi is09 tagCheck
    rw [hr] at hinit
    rw [hinit, hstart, hheld.handle, ← List.singleton_append, ← List.append_assoc]
    have hheld' : Held f (headerLength f is09) hs'.ssi.isSome { hs' with req := [] } :=
      ⟨hheld.handle, hheld.read, hheld.left_eq, hheld.state⟩
    have hout : Opening env (out ++ [.opened (some f) (headerLength f is09) hs'.ssi.isSome]) f
        (headerLength f is09) hs'.ssi.isSome := by
      refine ⟨?_, hopen, is09, rfl⟩
      rw [openings_append, hsilent.openings_eq]
      rfl
    refine story_send hserves hout hheld' ?_ ?_ r.2
    · rw [acts_append, hsilent.acts_eq]
      exact hremaining ▸ Fills.refl _
    · simp [hsilent.eof_not_mem]

theorem req_httpInitFile (env : Env W) (w : W) (hs : HttpState) (file : Option FsFile) (is09 tagCheck : Bool) :
    (httpInitFile env w hs file is09 tagCheck).1.req = hs.req := by
  cases file <;> rfl

theorem story_recvData (hserves : env.Serves) (h : Story env out (.active hs)) (w : W)
    (p : List ReqPbuf) :
    Story env (out ++ (httpRecvData env w hs p).2) (httpRecvData env w hs p).1.conn ∧
      .hang ∉ (httpRecvData env w hs p).2 := by
  have hfreed : ∀ q, Silent (recved p :: freed q) := fun q =>
    silent_append (silent_recved p) (silent_freed q)
  cases h with
  | sending f start ssi hopening hheld hfills hgoes =>
    have hsome : hs.handle.isSome := by simp [hheld.handle]
    rw [httpRecvData, if_pos hsome]
    have hkept : Story env out (.active { hs with req := [] }) :=
      story_same (.sending f start ssi hopening hheld hfills hgoes) rfl rfl rfl rfl
    exact ⟨story_silent hkept (hfreed hs.req), (hfreed hs.req).hang_not_mem⟩
  | finished hclosed => exact absurd rfl (hclosed hs)
  | waiting hidle hsilent =>
    have hnone : ¬hs.handle.isSome := by simp [hidle.handle]
    have hqueued : Idle { hs with req := hs.req ++ p } := ⟨hidle.handle, hidle.left, hidle.ssi⟩
    rw [httpRecvData, if_neg hnone]
    rcases parseRequest_cases env hidle.handle w p with ⟨uri, is09, -, hparse⟩ | hparse | hparse
    · have hreq := req_httpInitFile env (httpFindFile env w uri).2.2
        { hs with req := hs.req ++ p } (httpFindFile env w uri).1 is09 (httpFindFile env w uri).2.1
      generalize hr : httpInitFile env (httpFindFile env w uri).2.2 { hs with req := hs.req ++ p }
        (httpFindFile env w uri).1 is09 (httpFindFile env w uri).2.1 = r at hparse hreq
      have hopen := story_open hserves hqueued (silent_append hsilent (hfreed (hs.req ++ p))) rfl hr
      rw [List.append_assoc] at hopen
      rw [hparse]
      simp only [hreq]
      refine ⟨hopen.1, ?_⟩
      intro hmem
      rcases List.mem_append.mp hmem with hmem | hmem
      · exact (hfreed (hs.req ++ p)).hang_not_mem hmem
      · exact hopen.2 ((List.mem_cons.mp hmem).resolve_left (by simp))
    · rw [hparse]
      exact ⟨.waiting hqueued (silent_append hsilent (silent_recved p)), (silent_recved p).hang_not_mem⟩
    · rw [hparse]
      have hmore := silent_append (hfreed (hs.req ++ p)) (silent_close env w)
      exact ⟨story_close (.waiting hidle hsilent) hmore (closeConn_conn w), hmore.hang_not_mem⟩

theorem story_recv (hserves : env.Serves) (h : Story env out (.active hs)) (w : W)
    (p : List ReqPbuf) (err : ErrT) :
    Story env (out ++ (httpRecv env w hs p err).2) (httpRecv env w hs p err).1.conn ∧
      .hang ∉ (httpRecv env w hs p err).2 := by
  unfold httpRecv
  split
  · have htaken : Silent (if p = [] then [] else recved p :: freed p) := by
      split
      · exact silent_nil
      · exact silent_append (silent_recved p) (silent_freed p)
    have hmore := silent_append htaken (silent_close env w)
    exact ⟨story_close h hmore (closeConn_conn w), hmore.hang_not_mem⟩
  · exact story_recvData hserves h w p

theorem story_poll (hserves : env.Serves) (h : Story env out (.active hs)) (w : W) :
    Story env (out ++ (httpPoll env w hs).2) (httpPoll env w hs).1.conn ∧
      .hang ∉ (httpPoll env w hs).2 := by
  have hretried : Story env out (.active { hs with retries := hs.retries + 1 }) :=
    story_same h rfl rfl rfl rfl
  unfold httpPoll
  simp only
  split
  · have hmore := silent_close env w
    exact ⟨story_close h hmore (closeConn_conn w), hmore.hang_not_mem⟩
  · split
    · obtain ⟨hstory, hhang⟩ := story_httpSend hserves hretried w
      have hflush : ∀ b : Bool, Silent (if b then [.output] else []) := by
        intro b
        cases b
        · exact silent_nil
        · constructor <;> simp [openings, acts]
      have hmore := hflush (httpSend env w { hs with retries := hs.retries + 1 }).2.2
      rw [← List.append_assoc]
      refine ⟨story_silent hstory hmore, ?_⟩
      intro hmem
      rcases List.mem_append.mp hmem with hmem | hmem
      · exact hhang hmem
      · exact hmore.hang_not_mem hmem
    · rw [List.append_nil]
      exact ⟨hretried, List.not_mem_nil⟩

theorem story_step (hserves : env.Serves) {s : Sys W} (h : Story env out s.conn) (c : Call W) :
    Story env (out ++ (step env s c).2) (step env s c).1.conn ∧ .hang ∉ (step env s c).2 := by
  obtain ⟨w, conn⟩ := s
  have hsame : Story env (out ++ []) conn := story_silent h silent_nil
  cases conn with
  | active hs =>
    cases c with
    | recv p err => exact story_recv hserves h w p err
    | sent =>
      have hreset : Story env out (.active { hs with retries := 0 }) :=
        story_same h rfl rfl rfl rfl
      exact story_httpSend hserves hreset w
    | poll => exact story_poll hserves h w
    | err => exact ⟨story_close h silent_nil (by simp [step]), List.not_mem_nil⟩
    | world w' => exact ⟨hsame, List.not_mem_nil⟩
  | closing =>
    cases c with
    | poll =>
      have hmore := silent_close env w
      exact ⟨story_close h hmore (closeConn_conn w), hmore.hang_not_mem⟩
    | _ => exact ⟨hsame, List.not_mem_nil⟩
  | gone =>
    cases c <;> exact ⟨hsame, List.not_mem_nil⟩

theorem story_run (hserves : env.Serves) (w : W) (calls : List (Call W)) :
    Story env (Run.run (step env) (httpAccept w) calls).2
        (Run.run (step env) (httpAccept w) calls).1.conn ∧
      .hang ∉ (Run.run (step env) (httpAccept w) calls).2 := by
  refine Run.history_run (J := fun (s : Sys W) out => Story env out s.conn ∧ .hang ∉ out) ?_ ?_ calls
  · rintro s out c ⟨hstory, hhang⟩
    obtain ⟨hnext, hmore⟩ := story_step hserves hstory c
    exact ⟨hnext, by simp [hhang, hmore]⟩
  · exact ⟨.waiting ⟨rfl, rfl, rfl⟩ silent_nil, List.not_mem_nil⟩

end Steps

/-! ## The request that opened a file -/

abbrev history (env : Env W) (w : W) (calls : List (Call W)) : List Event :=
  (Run.run (step env) (httpAccept w) calls).2

/-- The file is the one for the URI of a request that came in, and its tags are looked for
exactly if it is one to be checked for tags and there is memory for that. -/
def Requested (env : Env W) (w : W) (calls : List (Call W)) (f : FsFile) (start : Nat)
    (ssi : Bool) : Prop :=
  ∃ before p after hs uri is09 tagCheck w', calls = before ++ .recv p .ok :: after ∧
    (Run.run (step env) (httpAccept w) before).1.conn = .active hs ∧
    parseRequest (requestData (hs.req ++ p)) = .get uri is09 ∧
    httpFindFile env (Run.run (step env) (httpAccept w) before).1.w uri = (some f, tagCheck, w') ∧
    start = headerLength f is09 ∧ ssi = (tagCheck && (env.memMalloc w').1)

section Requests

variable {f : FsFile} {start : Nat} {ssi : Bool} {hs : HttpState}

theorem openings_httpSend (env : Env W) (w : W) (hs : HttpState) :
    openings (httpSend env w hs).2.1 = [] := by
  unfold httpSend
  split
  · rfl
  · split
    · rfl
    · simp only
      split
      · rw [openings_append, openings_map]
        rfl
      · exact openings_map _

theorem openings_httpPoll (env : Env W) (w : W) (hs : HttpState) :
    openings (httpPoll env w hs).2 = [] := by
  unfold httpPoll
  simp only
  split
  · rfl
  split
  · rw [openings_append, openings_httpSend]
    split <;> rfl
  · rfl

/-- What is opened is opened for the request that is complete now. -/
theorem opened_recvData {w : W} {p : List ReqPbuf} (hssi : hs.handle = none → hs.ssi = none)
    (h : (some f, start, ssi) ∈ openings (httpRecvData env w hs p).2) :
    ∃ uri is09 tagCheck w', parseRequest (requestData (hs.req ++ p)) = .get uri is09 ∧
      httpFindFile env w uri = (some f, tagCheck, w') ∧ start = headerLength f is09 ∧
      ssi = (tagCheck && (env.memMalloc w').1) := by
  have hquiet : ∀ q, openings (recved p :: freed q) = [] := fun q =>
    (silent_append (silent_recved p) (silent_freed q)).openings_eq
  unfold httpRecvData at h
  split at h
  · rw [hquiet] at h
    contradiction
  · rename_i hclosed
    have hnone : hs.handle = none := by simpa using hclosed
    have hnossi := hssi hnone
    rcases parseRequest_cases env hnone w p with ⟨uri, is09, hget, hparse⟩ | hparse | hparse
    · rw [hparse] at h
      simp only [openings_append, hquiet, List.nil_append] at h
      have hone : ∀ r : HttpState × W, openings (.opened r.1.handle r.1.file r.1.ssi.isSome ::
          (httpSend env r.2 { r.1 with req := [] }).2.1) = [(r.1.handle, r.1.file, r.1.ssi.isSome)] :=
        fun r => congrArg (_ :: ·) (openings_httpSend env r.2 _)
      rw [hone, List.mem_singleton] at h
      obtain ⟨⟨file, tagCheck, w'⟩, hfind⟩ : ∃ r, httpFindFile env w uri = r := ⟨_, rfl⟩
      rw [hfind] at h
      cases file with
      | none => simp [httpInitFile] at h
      | some g =>
        simp only [httpInitFile, Prod.mk.injEq, Option.some.injEq, hnossi] at h
        obtain ⟨rfl, rfl, rfl⟩ := h
        refine ⟨uri, is09, tagCheck, w', hget, hfind, rfl, ?_⟩
        cases tagCheck with
        | false => rfl
        | true => cases hmem : (env.memMalloc w').1 <;> simp [hmem]
    · rw [hparse] at h
      contradiction
    · rw [hparse] at h
      simp only [openings_append, hquiet, (silent_close env w).openings_eq] at h
      contradiction

theorem opened_step {s : Sys W} {c : Call W}
    (hssi : ∀ hs, s.conn = .active hs → hs.handle = none → hs.ssi = none)
    (h : (some f, start, ssi) ∈ openings (step env s c).2) :
    ∃ hs p uri is09 tagCheck w', s.conn = .active hs ∧ c = .recv p .ok ∧
      parseRequest (requestData (hs.req ++ p)) = .get uri is09 ∧
      httpFindFile env s.w uri = (some f, tagCheck, w') ∧ start = headerLength f is09 ∧
      ssi = (tagCheck && (env.memMalloc w').1) := by
  obtain ⟨w, conn⟩ := s
  cases conn with
  | active hs =>
    cases c with
    | recv p err =>
      simp only [step, httpRecv] at h
      split at h
      · have htaken : openings (if p = [] then [] else recved p :: freed p) = [] := by
          split
          · rfl
          · exact (silent_append (silent_recved p) (silent_freed p)).openings_eq
        rw [openings_append, htaken, (silent_close env w).openings_eq] at h
        contradiction
      · rename_i hdata
        rw [not_or, not_not] at hdata
        obtain ⟨rfl, -⟩ := hdata
        obtain ⟨uri, is09, tagCheck, w', hrest⟩ := opened_recvData (hssi hs rfl) h
        exact ⟨hs, p, uri, is09, tagCheck, w', rfl, rfl, hrest⟩
    | sent =>
      simp only [step, httpSent, openings_httpSend] at h
      contradiction
    | poll =>
      simp only [step, openings_httpPoll] at h
      contradiction
    | err => contradiction
    | world w' => contradiction
  | closing =>
    cases c with
    | poll =>
      simp only [step, (silent_close env w).openings_eq] at h
      contradiction
    | _ => contradiction
  | gone => cases c <;> contradiction

theorem requested_of_opening (hserves : env.Serves) {w : W} {calls : List (Call W)}
    (h : (some f, start, ssi) ∈ openings (history env w calls)) :
    Requested env w calls f start ssi := by
  obtain ⟨e, hmem, he⟩ := List.mem_filterMap.mp h
  obtain ⟨before, c, after, rfl, hstep⟩ := Run.exists_of_mem_run hmem
  have hssi : ∀ hs, (Run.run (step env) (httpAccept w) before).1.conn = .active hs →
      hs.handle = none → hs.ssi = none := by
    intro hs hactive hnone
    obtain ⟨hstory, -⟩ := story_run hserves w before
    rw [hactive] at hstory
    cases hstory with
    | waiting hidle => exact hidle.ssi
    | sending f start ssi hopening hheld =>
      rw [hheld.handle] at hnone
      contradiction
    | finished hclosed => exact absurd rfl (hclosed hs)
  obtain ⟨hs, p, uri, is09, tagCheck, w', hactive, rfl, hrest⟩ :=
    opened_step hssi (List.mem_filterMap.mpr ⟨e, hstep, he⟩)
  exact ⟨before, p, after, hs, uri, is09, tagCheck, w', rfl, hactive, hrest⟩

end Requests

/-! ## A small server

One page with one tag, and a client that takes four bytes at a time.
-/

def smallFile : FsFile where
  data := text "button <!--#btn--> of the board"
  length_lt := by decide
  index := 31
  httpHeaderIncluded := false

def smallEnv : Env Unit where
  tcpWrite _ _ := (.ok, ())
  tcpSndbuf _ := 4
  tcpSndqueuelen _ := 0
  tcpMss _ := 536
  tcpClose _ := (.ok, ())
  memMalloc _ := (true, ())
  fsRoot := [(text "/a.shtml", smallFile)]
  cgiNames := []
  cgiHandler w _ _ := (text "/", w)
  ssiHandler w _ insert _ := (1, insert.setByte 0 0x31, w)
  ppcTags := [text "btn"]

theorem smallEnv_serves : smallEnv.Serves where
  fits := fun _ _ _ _ => (by decide : 1 ≤ lwipHttpdMaxTagInsertLen)
  short := by
    intro name f hmem is09
    obtain ⟨-, rfl⟩ := Prod.mk.inj (List.mem_singleton.mp hmem)
    exact short_of_length (by decide) _
  header := by
    intro name f hmem
    obtain ⟨-, rfl⟩ := Prod.mk.inj (List.mem_singleton.mp hmem)
    exact quiet_of_noLeadIn (noLeadIn_of_not_mem (by decide))

def smallDoc : List (Piece UInt8 (List UInt8)) :=
  [.text (text "button "), .tag (text "btn") (tagText [] (text "btn") []),
    .text (text " of the board")]

theorem wellFormed_smallDoc : ∀ p ∈ smallDoc, WellFormed p := by
  have hname : TagName (text "btn") := ⟨by decide +kernel, by decide +kernel, by decide +kernel⟩
  intro p hp
  simp only [smallDoc, List.mem_cons, List.not_mem_nil, or_false] at hp
  rcases hp with rfl | rfl | rfl
  · exact noLeadIn_of_not_mem (by decide +kernel)
  · exact ⟨hname, [], [], by simp, by simp, rfl⟩
  · exact noLeadIn_of_not_mem (by decide +kernel)

theorem smallFile_not_endsInTag : ¬EndsInTag (page smallFile 0 true) := by
  have hwell : ∀ p ∈ smallDoc.dropLast ++ [.text (text " of the board")], WellFormed p :=
    wellFormed_smallDoc
  exact page_not_endsInTag hwell (by decide +kernel) (by decide +kernel)

def smallGet : Call Unit := .recv [⟨0, text "GET /a.shtml HTTP/1.0\r\n\r\n"⟩] .ok

/-! ## What is sent -/

section Sent

variable {f : FsFile} {start : Nat} {ssi : Bool}

/-- However TCP calls, what is sent is the beginning of one page, with the answers of the
application in the places of the tags, and no call goes on for ever. -/
theorem sent_in_order (hserves : env.Serves) (w : W) (calls : List (Call W)) :
    .hang ∉ history env w calls ∧
      ((acts (history env w calls) = [] ∧
          (openings (history env w calls) = [] ∨
            openings (history env w calls) = [(none, 0, false)])) ∨
        ∃ f start ssi, openings (history env w calls) = [(some f, start, ssi)] ∧
          Requested env w calls f start ssi ∧
          asked (acts (history env w calls)) <+: tags (page f start ssi) ∧
          ∀ as, output (acts (history env w calls)) <+:
            fill (page f start ssi) (answers (acts (history env w calls)) ++ as)) := by
  obtain ⟨hstory, hhang⟩ := story_run hserves w calls
  refine ⟨hhang, ?_⟩
  cases told_of_story hstory with
  | nothing hopenings hacts => exact Or.inl ⟨hacts, Or.inl hopenings⟩
  | missing honly hacts => exact Or.inl ⟨hacts, Or.inr honly⟩
  | sent f start ssi hopening rest hfills hended =>
    have hrequested := requested_of_opening hserves (hopening.only ▸ List.mem_singleton_self _)
    exact Or.inr ⟨f, start, ssi, hopening.only, hrequested, hfills.asked_prefix,
      hfills.output_prefix⟩

theorem sent_in_order_small :
    let calls : List (Call Unit) := [smallGet, .poll]
    .hang ∉ history smallEnv () calls ∧ Requested smallEnv () calls smallFile 0 true ∧
      asked (acts (history smallEnv () calls)) <+: tags (page smallFile 0 true) ∧
      (∀ as, output (acts (history smallEnv () calls)) <+:
        fill (page smallFile 0 true) (answers (acts (history smallEnv () calls)) ++ as)) ∧
      output (acts (history smallEnv () calls)) = text "button 1 of the boar" := by
  intro calls
  have hopen : openings (history smallEnv () calls) = [(some smallFile, 0, true)] := by
    decide +kernel
  have hout : output (acts (history smallEnv () calls)) = text "button 1 of the boar" := by decide +kernel
  obtain ⟨hhang, ⟨-, hnone | hmissing⟩ | ⟨f, start, ssi, honly, hrequested, hasked, houtput⟩⟩ :=
    sent_in_order smallEnv_serves () calls
  · rw [hopen] at hnone
    contradiction
  · rw [hopen] at hmissing
    simp at hmissing
  · rw [hopen] at honly
    simp only [List.cons.injEq, Prod.mk.injEq, Option.some.injEq, and_true] at honly
    obtain ⟨rfl, rfl, rfl⟩ := honly
    exact ⟨hhang, hrequested, hasked, houtput, hout⟩

theorem told_of_eof (hserves : env.Serves) {w : W} {calls : List (Call W)}
    (hopen : openings (history env w calls) = [(some f, start, ssi)])
    (heof : .eof ∈ history env w calls) :
    ∃ rest, Fills (page f start ssi) (acts (history env w calls)) rest ∧
      Ended (page f start ssi) rest := by
  obtain ⟨hstory, -⟩ := story_run hserves w calls
  generalize (Run.run (step env) (httpAccept w) calls).1.conn = c at hstory
  cases hstory with
  | waiting hidle hsilent => exact absurd heof hsilent.eof_not_mem
  | sending f start ssi hopening hheld hfills hgoes => exact absurd heof hgoes
  | finished hclosed htold =>
    cases htold with
    | nothing hopenings hacts =>
      rw [hopenings] at hopen
      contradiction
    | missing honly hacts =>
      rw [honly] at hopen
      simp at hopen
    | sent f' start' ssi' hopening rest hfills hended =>
      have hsame := hopening.only.symm.trans hopen
      simp only [List.cons.injEq, Prod.mk.injEq, Option.some.injEq, and_true] at hsame
      obtain ⟨rfl, rfl, rfl⟩ := hsame
      exact ⟨rest, hfills, hended heof⟩

theorem fills_of_eof (hserves : env.Serves) {w : W} {calls : List (Call W)}
    (hopen : openings (history env w calls) = [(some f, start, ssi)])
    (heof : .eof ∈ history env w calls) (hend : ¬EndsInTag (page f start ssi)) :
    Fills (page f start ssi) (acts (history env w calls)) [] := by
  obtain ⟨rest, hfills, hended⟩ := told_of_eof hserves hopen heof
  rcases hended with rfl | ⟨lost, -, htag⟩
  · exact hfills
  · exact absurd htag hend

/-- A connection that is closed at the end of its file has sent the whole page of its
request, unless the page ends in a tag. -/
theorem sent_whole (hserves : env.Serves) {w : W} {calls : List (Call W)}
    (hopen : openings (history env w calls) = [(some f, start, ssi)])
    (heof : .eof ∈ history env w calls) (hend : ¬EndsInTag (page f start ssi)) :
    Requested env w calls f start ssi ∧
      output (acts (history env w calls)) =
        fill (page f start ssi) (answers (acts (history env w calls))) ∧
      asked (acts (history env w calls)) = tags (page f start ssi) :=
  ⟨requested_of_opening hserves (hopen ▸ List.mem_singleton_self _),
    (fills_of_eof hserves hopen heof hend).output_eq⟩

theorem sent_whole_small :
    let calls : List (Call Unit) := [smallGet, .sent, .sent]
    Requested smallEnv () calls smallFile 0 true ∧
      output (acts (history smallEnv () calls)) =
        fill (page smallFile 0 true) (answers (acts (history smallEnv () calls))) ∧
      asked (acts (history smallEnv () calls)) = tags (page smallFile 0 true) ∧
      output (acts (history smallEnv () calls)) = text "button 1 of the board" := by
  intro calls
  obtain ⟨hrequested, hout, hasked⟩ := sent_whole smallEnv_serves
    (by decide +kernel : openings (history smallEnv () calls) = [(some smallFile, 0, true)])
    (by decide +kernel) smallFile_not_endsInTag
  exact ⟨hrequested, hout, hasked, by decide +kernel⟩

theorem exists_of_sending {c : Conn} (h : c.sending = true) :
    ∃ hs, c = .active hs ∧ hs.handle.isSome := by
  cases c with
  | active hs => exact ⟨hs, rfl, h⟩
  | closing => contradiction
  | gone => contradiction

end Sent

end Lrndis.Http
