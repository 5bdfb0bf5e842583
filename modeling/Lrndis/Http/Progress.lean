import Lrndis.Http.Connection

/-!
# How a connection comes to its end

With room in TCP for what it sends, a page gets to its end. Without an acknowledgement the
connection is closed after a few polls.
-/

namespace Lrndis.Http

open Mem Template

variable {W : Type} {env : Env W}

/-! ## Pages that are finished -/

section Finished

variable {f : FsFile} {start : Nat} {ssi : Bool}

/-- Whenever TCP acknowledges something it has room for more, the client keeps the connection,
and no poll is one too many. -/
def Acked (env : Env W) (s : Sys W) : Call W → Prop
  | .sent => env.Room s.w
  | .recv p err => err = .ok ∧ p ≠ []
  | .poll => ∀ hs, s.conn = .active hs → hs.retries + 1 ≠ httpdMaxRetries
  | .err => False
  | .world _ => True

def Call.acks : Call W → Bool
  | .sent => true
  | _ => false

def Sends (f : FsFile) (start : Nat) (ssi : Bool) (s : Sys W) : Prop :=
  ∃ hs, s.conn = .active hs ∧ Held f start ssi hs

def Sys.effort (f : FsFile) (s : Sys W) : Nat :=
  match s.conn with
  | .active hs => Http.effort f hs
  | _ => 0

theorem sends_send (hfits : env.Fits) (hshort : Short (page f start ssi)) {hs : HttpState}
    (h : Held f start ssi hs) (w : W) :
    .eof ∈ (httpSend env w hs).2.1 ∨
      (Sends f start ssi (httpSend env w hs).1 ∧ (httpSend env w hs).1.effort f ≤ effort f hs ∧
        (env.Room w → ¬EndsInTag (page f start ssi) →
          (httpSend env w hs).1.effort f < effort f hs)) := by
  cases httpSend_spec hfits hshort h w with
  | goes d hconn hout hleft hsent =>
    right
    simp only [Sends, Sys.effort, hconn]
    exact ⟨⟨d.hs, rfl, hsent.held⟩, hsent.effort_le, fun hroom hend => hsent.effort_lt hroom hleft hend⟩
  | ends l rest e hconn hout hl hended =>
    left
    rw [hout]
    exact List.mem_append_right _ List.mem_cons_self

theorem sends_step (hfits : env.Fits) (hshort : Short (page f start ssi))
    (hend : ¬EndsInTag (page f start ssi)) (s : Sys W) (c : Call W) (h : Sends f start ssi s)
    (hacked : Acked env s c) :
    .eof ∈ (step env s c).2 ∨
      (Sends f start ssi (step env s c).1 ∧
        (step env s c).1.effort f + (if c.acks then 1 else 0) ≤ s.effort f) := by
  obtain ⟨w, conn⟩ := s
  obtain ⟨hs, rfl, hheld⟩ := h
  have hhandle : hs.handle.isSome := by simp [hheld.handle]
  have hother : ∀ retries req, Held f start ssi { hs with retries := retries, req := req } :=
    fun _ _ => ⟨hheld.handle, hheld.read, hheld.left_eq, hheld.state⟩
  cases c with
  | world w' => exact Or.inr ⟨⟨hs, rfl, hheld⟩, Nat.le_refl _⟩
  | err => exact absurd hacked id
  | recv p err =>
    obtain ⟨rfl, hp⟩ := hacked
    have hgo : ¬(ErrT.ok ≠ .ok ∨ p = []) := by simp [hp]
    right
    simp only [step, httpRecv, if_neg hgo, httpRecvData, if_pos hhandle]
    exact ⟨⟨_, rfl, hother hs.retries []⟩, Nat.le_refl _⟩
  | sent =>
    rcases sends_send hfits hshort (hother 0 hs.req) w with heof | ⟨hsends, -, hlt⟩
    · exact Or.inl heof
    · exact Or.inr ⟨hsends, hlt hacked hend⟩
  | poll =>
    have hpoll := hacked hs rfl
    simp only [step, httpPoll, if_neg hpoll, if_pos hhandle]
    rcases sends_send hfits hshort (hother (hs.retries + 1) hs.req) w with heof | ⟨hsends, hle, -⟩
    · exact Or.inl (List.mem_append_left _ heof)
    · exact Or.inr ⟨hsends, hle⟩

theorem openings_once (hserves : env.Serves) {w : W} {calls : List (Call W)}
    (hopen : openings (history env w calls) = [(some f, start, ssi)]) (more : List (Call W)) :
    openings (history env w (calls ++ more)) = [(some f, start, ssi)] := by
  have hall : history env w (calls ++ more) = history env w calls ++
      (Run.run (step env) (Run.run (step env) (httpAccept w) calls).1 more).2 := by
    rw [history, Run.run_append]
  have honce : (openings (history env w (calls ++ more))).length ≤ 1 :=
    openings_le_of_told (told_of_story (story_run hserves w (calls ++ more)).1)
  rw [hall, openings_append, hopen] at honce ⊢
  rw [List.length_append, List.length_singleton] at honce
  rw [List.length_eq_zero_iff.mp (by omega : (openings _).length = 0), List.append_nil]

theorem sends_of_opening (hserves : env.Serves) {w : W} {calls : List (Call W)}
    (hopen : openings (history env w calls) = [(some f, start, ssi)]) {hs : HttpState}
    (hactive : (Run.run (step env) (httpAccept w) calls).1.conn = .active hs) :
    Held f start ssi hs ∧ Short (page f start ssi) := by
  obtain ⟨hstory, -⟩ := story_run hserves w calls
  rw [hactive] at hstory
  cases hstory with
  | waiting hidle hsilent =>
    rw [hsilent.openings_eq] at hopen
    contradiction
  | sending f' start' ssi' hopening hheld hfills hgoes =>
    have hsame := hopening.only.symm.trans hopen
    simp only [List.cons.injEq, Prod.mk.injEq, Option.some.injEq, and_true] at hsame
    obtain ⟨rfl, rfl, rfl⟩ := hsame
    obtain ⟨is09, rfl⟩ := hopening.start_eq
    exact ⟨hheld, short_page hserves hopening.known is09 _⟩
  | finished hclosed => exact absurd rfl (hclosed hs)

theorem eof_finally (hserves : env.Serves) {w : W} {calls more : List (Call W)}
    (hopen : openings (history env w calls) = [(some f, start, ssi)]) {hs : HttpState}
    (hactive : (Run.run (step env) (httpAccept w) calls).1.conn = .active hs)
    (hend : ¬EndsInTag (page f start ssi))
    (hacked : Run.Along (step env) (Acked env) (Run.run (step env) (httpAccept w) calls).1 more)
    (hacks : effort f hs < more.countP Call.acks) :
    .eof ∈ history env w (calls ++ more) := by
  obtain ⟨hheld, hshort⟩ := sends_of_opening hserves hopen hactive
  have hmeasure : (Run.run (step env) (httpAccept w) calls).1.effort f < more.countP Call.acks := by
    simp only [Sys.effort, hactive]
    exact hacks
  obtain ⟨pre, c, post, rfl, heof⟩ := Run.reaches (D := fun _ out => .eof ∈ out)
    (sends_step hserves.fits hshort hend) ⟨hs, hactive, hheld⟩ hacked hmeasure
  rw [history, Run.run_append]
  exact List.mem_append_right _ (Run.mem_run_of_mem_step heof)

/-- A page is sent to its end, if TCP acknowledges often enough. -/
theorem sent_finally (hserves : env.Serves) {w : W} {calls more : List (Call W)}
    (hopen : openings (history env w calls) = [(some f, start, ssi)]) {hs : HttpState}
    (hactive : (Run.run (step env) (httpAccept w) calls).1.conn = .active hs)
    (hend : ¬EndsInTag (page f start ssi))
    (hacked : Run.Along (step env) (Acked env) (Run.run (step env) (httpAccept w) calls).1 more)
    (hacks : effort f hs < more.countP Call.acks) :
    output (acts (history env w (calls ++ more))) =
        fill (page f start ssi) (answers (acts (history env w (calls ++ more)))) ∧
      asked (acts (history env w (calls ++ more))) = tags (page f start ssi) :=
  (fills_of_eof hserves (openings_once hserves hopen more)
    (eof_finally hserves hopen hactive hend hacked hacks) hend).output_eq

theorem acked_replicate (hroom : ∀ w, env.Room w) (s : Sys W) (n : Nat) :
    Run.Along (step env) (Acked env) s (List.replicate n .sent) := by
  induction n generalizing s with
  | zero => trivial
  | succ n ih => exact ⟨hroom s.w, ih _⟩

theorem smallEnv_room (w : Unit) : smallEnv.Room w :=
  ⟨(by decide : (4 : UInt16) ≠ 0), (by decide : (536 : UInt16) ≠ 0), fun _ _ => rfl⟩

theorem countP_acks (n : Nat) : (List.replicate n (.sent : Call W)).countP Call.acks = n := by
  have hacks : (Call.sent : Call W).acks = true := rfl
  rw [List.countP_replicate, if_pos hacks]

theorem sent_finally_small :
    ∃ n, let calls := [smallGet] ++ List.replicate n .sent
      output (acts (history smallEnv () calls)) =
          fill (page smallFile 0 true) (answers (acts (history smallEnv () calls))) ∧
        asked (acts (history smallEnv () calls)) = tags (page smallFile 0 true) := by
  have hopen : openings (history smallEnv () [smallGet]) = [(some smallFile, 0, true)] := by
    decide +kernel
  obtain ⟨hs, hactive, -⟩ := exists_of_sending
    (by decide +kernel : (Run.run (step smallEnv) (httpAccept ()) [smallGet]).1.conn.sending = true)
  have hacks : effort smallFile hs <
      (List.replicate (effort smallFile hs + 1) (.sent : Call Unit)).countP Call.acks := by
    rw [countP_acks]
    exact Nat.lt_succ_self _
  exact ⟨_, sent_finally smallEnv_serves hopen hactive smallFile_not_endsInTag
    (acked_replicate smallEnv_room _ _) hacks⟩

end Finished

/-! ## Connections that are given up -/

section Patience

def Call.polls : Call W → Bool
  | .poll => true
  | _ => false

/-- How many polls a connection still lasts without an acknowledgement. -/
def patience (hs : HttpState) : Nat :=
  (httpdMaxRetries - 1 - hs.retries) + if hs.handle.isSome then 0 else httpdMaxRetries - 1

def Sys.patience (s : Sys W) : Nat :=
  match s.conn with
  | .active hs => Http.patience hs
  | _ => 0

def Lasts (s : Sys W) : Prop := ∀ hs, s.conn = .active hs → hs.retries < httpdMaxRetries

theorem patience_lt (s : Sys W) : s.patience < 2 * httpdMaxRetries - 1 := by
  unfold Sys.patience
  split
  · simp only [patience, httpdMaxRetries]
    split <;> omega
  · decide

theorem patience_send (env : Env W) (w : W) (hs : HttpState) (h : hs.retries < httpdMaxRetries) :
    Closed (httpSend env w hs).1 ∨
      (Lasts (httpSend env w hs).1 ∧ (httpSend env w hs).1.patience = patience hs) := by
  rcases kept_httpSend env w hs with hclosed | ⟨hs', hconn, hhandle, hretries, -⟩
  · exact Or.inl hclosed
  · right
    have hsame : patience hs' = patience hs := by
      simp only [patience, hhandle, hretries]
    simp only [Lasts, Sys.patience, hconn, Conn.active.injEq, hsame, and_true]
    rintro hs'' rfl
    rw [hretries]
    exact h

theorem closed_step (s : Sys W) (c : Call W) (h : Closed s) : Closed (step env s c).1 := by
  obtain ⟨w, conn⟩ := s
  cases conn with
  | active hs => exact absurd rfl (h hs)
  | closing =>
    cases c with
    | poll => exact closeConn_conn w
    | _ => exact h
  | gone => cases c <;> exact h

/-- A request that is answered makes up for the polls before it, but only once. -/
theorem patience_recv (w : W) {hs : HttpState} (h : hs.retries < httpdMaxRetries)
    (p : List ReqPbuf) (err : ErrT) :
    Closed (httpRecv env w hs p err).1 ∨
      (Lasts (httpRecv env w hs p err).1 ∧ (httpRecv env w hs p err).1.patience ≤ patience hs) := by
  have hqueue : ∀ req, Lasts (W := W) { w := w, conn := .active { hs with req := req } } ∧
      Sys.patience (W := W) { w := w, conn := .active { hs with req := req } } ≤ patience hs := by
    intro req
    refine ⟨?_, Nat.le_refl _⟩
    rintro hs' hactive
    obtain rfl := Conn.active.inj hactive
    exact h
  unfold httpRecv
  split
  · exact Or.inl (closeConn_conn w)
  · unfold httpRecvData
    split
    · exact Or.inr (hqueue [])
    · rename_i hnone
      have hhandle : hs.handle = none := by simpa using hnone
      rcases parseRequest_cases env hhandle w p with ⟨uri, is09, -, hparse⟩ | hparse | hparse
      · rw [hparse]
        cases hfile : (httpFindFile env w uri).1 with
        | none => exact Or.inl (closeConn_conn _)
        | some f =>
          -- The retries are reset, and there is a file now.
          have hfresh : ∀ hs' : HttpState, hs'.handle = some f → hs'.retries = 0 →
              hs'.retries < httpdMaxRetries ∧ patience hs' ≤ patience hs := by
            intro hs' hsome hzero
            simp only [patience, hsome, hzero, hhandle]
            exact ⟨by decide, Nat.le_add_left _ _⟩
          obtain ⟨hlt, hle⟩ := hfresh { (httpInitFile env (httpFindFile env w uri).2.2
            { hs with req := hs.req ++ p } (some f) is09 (httpFindFile env w uri).2.1).1 with
              req := [] } rfl rfl
          rcases patience_send env _ _ hlt with hclosed | ⟨hnext, hsame⟩
          · exact Or.inl hclosed
          · exact Or.inr ⟨hnext, hsame.trans_le hle⟩
      · rw [hparse]
        exact Or.inr (hqueue _)
      · rw [hparse]
        exact Or.inl (closeConn_conn w)

theorem patience_step (s : Sys W) (c : Call W) (h : Lasts s) (hc : c.acks = false) :
    Closed (step env s c).1 ∨
      (Lasts (step env s c).1 ∧
        (step env s c).1.patience + (if c.polls then 1 else 0) ≤ s.patience) := by
  obtain ⟨w, conn⟩ := s
  cases conn with
  | closing => exact Or.inl (closed_step _ c (by simp [Closed]))
  | gone => exact Or.inl (closed_step _ c (by simp [Closed]))
  | active hs =>
    have hretries := h hs rfl
    cases c with
    | recv p err => exact patience_recv w hretries p err
    | sent => contradiction
    | err => exact Or.inl (by simp [Closed, step])
    | world w' => exact Or.inr ⟨h, Nat.le_refl _⟩
    | poll =>
      simp only [step, httpPoll]
      split
      · exact Or.inl (closeConn_conn w)
      · rename_i hmore
        have hless : patience { hs with retries := hs.retries + 1 } + 1 ≤ patience hs := by
          simp only [patience] at hmore ⊢
          omega
        have hlasts : hs.retries + 1 < httpdMaxRetries := by
          omega
        split
        · rcases patience_send env w { hs with retries := hs.retries + 1 } hlasts with hclosed | ⟨hnext, hsame⟩
          · exact Or.inl hclosed
          · exact Or.inr ⟨hnext, hsame ▸ hless⟩
        · refine Or.inr ⟨?_, hless⟩
          rintro hs' hactive
          obtain rfl := Conn.active.inj hactive
          exact hlasts

theorem lasts_of_closed {s : Sys W} (h : Closed s) : Lasts s := fun hs hactive => absurd hactive (h hs)

theorem lasts_step (s : Sys W) (c : Call W) (h : Lasts s) : Lasts (step env s c).1 := by
  cases hc : c.acks with
  | false =>
    rcases patience_step s c h hc with hclosed | ⟨hnext, -⟩
    · exact lasts_of_closed hclosed
    · exact hnext
  | true =>
    obtain ⟨w, conn⟩ := s
    cases c with
    | sent =>
      cases conn with
      | active hs =>
        have hlt : ({ hs with retries := 0 } : HttpState).retries < httpdMaxRetries :=
          Nat.zero_lt_succ 3
        rcases patience_send env w _ hlt with hclosed | ⟨hnext, -⟩
        · exact lasts_of_closed hclosed
        · exact hnext
      | closing => exact h
      | gone => exact h
    | _ => contradiction

theorem closed_finally (env : Env W) (w : W) (calls more : List (Call W))
    (hquiet : ∀ c ∈ more, c.acks = false)
    (hpolls : 2 * httpdMaxRetries - 1 ≤ more.countP Call.polls) :
    Closed (Run.run (step env) (httpAccept w) (calls ++ more)).1 := by
  have hstart : Lasts (httpAccept w) := by
    rintro hs' hactive
    obtain rfl := Conn.active.inj hactive
    decide
  have hlasts : Lasts (Run.run (step env) (httpAccept w) calls).1 :=
    Run.invariant_run lasts_step hstart calls
  have hle := Nat.lt_of_lt_of_le (patience_lt (Run.run (step env) (httpAccept w) calls).1) hpolls
  obtain ⟨pre, c, post, rfl, hclosed⟩ := Run.reaches (D := fun s _ => Closed s)
    (C := fun _ c => c.acks = false) patience_step hlasts
    (Run.along_of_mem _ hquiet _) hle
  rw [Run.run_append, Run.run_append, Run.run_cons]
  exact Run.invariant_run closed_step hclosed post

end Patience

/-! ## How often a connection is closed -/

section Closes

variable {out more : List Event}

def closes (out : List Event) : List ErrT :=
  out.filterMap fun
    | .close e => some e
    | _ => none

@[simp] theorem closes_append (out more : List Event) :
    closes (out ++ more) = closes out ++ closes more := List.filterMap_append

@[simp] theorem closes_map (l : List SendAct) : closes (l.map .act) = [] := by
  simp [closes, List.filterMap_map]

@[simp] theorem closes_freed (p : List ReqPbuf) : closes (freed p) = [] := by
  simp [closes, freed, List.filterMap_map]

/-- An active connection was never closed, and one that TCP still has could not be closed. -/
def Parted (out : List Event) : Conn → Prop
  | .active _ => closes out = []
  | .closing => closes out ≠ [] ∧ ∀ e ∈ closes out, e ≠ .ok
  | .gone => True

inductive Parting (s : Sys W) (out : List Event) : Prop
  | stays (hs : HttpState) (conn : s.conn = .active hs) (quiet : closes out = [])
  | closed (e : ErrT) (closes_eq : closes out = [e])
      (conn : s.conn = if e = .ok then .gone else .closing)
  | lost (conn : s.conn = .gone)

theorem parting_silent {s : Sys W} {pre post : List Event} (h : Parting s out)
    (hpre : closes pre = []) (hpost : closes post = []) : Parting s (pre ++ out ++ post) := by
  have hsame : closes (pre ++ out ++ post) = closes out := by
    rw [closes_append, closes_append, hpre, hpost, List.nil_append, List.append_nil]
  cases h with
  | stays hs hconn hquiet => exact .stays hs hconn (hsame.trans hquiet)
  | closed e hcloses hconn => exact .closed e (hsame.trans hcloses) hconn
  | lost hconn => exact .lost hconn

theorem parting_behind {s : Sys W} {pre : List Event} (h : Parting s out) (hpre : closes pre = []) :
    Parting s (pre ++ out) := by
  have hnil := parting_silent h hpre (rfl : closes [] = [])
  rwa [List.append_nil] at hnil

theorem parting_close (w : W) : Parting (httpCloseConn env w).1 (httpCloseConn env w).2 :=
  .closed (env.tcpClose w).1 rfl rfl

theorem parting_send (w : W) (hs : HttpState) :
    Parting (httpSend env w hs).1 (httpSend env w hs).2.1 := by
  unfold httpSend
  split
  · exact parting_behind (parting_close w) (rfl : closes [.eof] = [])
  · split
    · exact .stays hs rfl rfl
    · rename_i d hdata
      simp only
      split
      · exact parting_behind (parting_behind (parting_close d.w) (rfl : closes [.eof] = []))
          (closes_map d.acts)
      · exact .stays d.hs rfl (closes_map d.acts)

theorem parting_recv (w : W) (hs : HttpState) (p : List ReqPbuf) (err : ErrT) :
    Parting (httpRecv env w hs p err).1 (httpRecv env w hs p err).2 := by
  have htaken : ∀ q, closes (recved p :: freed q) = [] := closes_freed
  unfold httpRecv
  split
  · apply parting_behind (parting_close w)
    split
    · rfl
    · exact htaken p
  · unfold httpRecvData
    split
    · exact .stays _ rfl (htaken hs.req)
    · split
      · rename_i hs' w' _
        apply parting_behind _ (htaken hs'.req)
        exact parting_behind (parting_send w' { hs' with req := [] })
          (rfl : closes [.opened hs'.handle hs'.file hs'.ssi.isSome] = [])
      · exact .stays _ rfl rfl
      · rename_i hs' w' _
        exact parting_behind (parting_close w') (htaken hs'.req)
      · rename_i hs' w' _ _ _ _
        exact .stays _ rfl (htaken hs'.req)

theorem parting_poll (w : W) (hs : HttpState) :
    Parting (httpPoll env w hs).1 (httpPoll env w hs).2 := by
  unfold httpPoll
  simp only
  split
  · exact parting_close w
  split
  · refine parting_silent (parting_send w _) (rfl : closes [] = []) ?_
    split <;> rfl
  · exact .stays _ rfl rfl

theorem parted_of_parting {s : Sys W} (hquiet : closes out = []) (h : Parting s more) :
    Parted (out ++ more) s.conn := by
  cases h with
  | stays hs hconn hmore =>
    rw [hconn, Parted, closes_append, hquiet, hmore, List.append_nil]
  | lost hconn =>
    rw [hconn]
    trivial
  | closed e hcloses hconn =>
    rw [hconn]
    by_cases hok : e = .ok
    · rw [if_pos hok]
      trivial
    · rw [if_neg hok, Parted, closes_append, hquiet, hcloses]
      simp [hok]

theorem parted_step (s : Sys W) (out : List Event) (c : Call W) (h : Parted out s.conn) :
    Parted (out ++ (step env s c).2) (step env s c).1.conn := by
  obtain ⟨w, conn⟩ := s
  cases conn with
  | active hs =>
    apply parted_of_parting h
    cases c with
    | recv p err => exact parting_recv w hs p err
    | sent => exact parting_send w _
    | poll => exact parting_poll w hs
    | err => exact .lost rfl
    | world w' => exact .stays hs rfl rfl
  | gone => cases c <;> trivial
  | closing =>
    have hsame : Parted (out ++ []) .closing := by
      rw [List.append_nil]
      exact h
    obtain ⟨hne, hfailed⟩ := h
    cases c with
    | poll =>
      -- one more try
      simp only [step, httpCloseConn]
      by_cases hok : (env.tcpClose w).1 = .ok
      · rw [if_pos hok]
        trivial
      · rw [if_neg hok, Parted, closes_append]
        refine ⟨fun hnil => hne (List.append_eq_nil_iff.mp hnil).1, ?_⟩
        intro e hmem
        rcases List.mem_append.mp hmem with hmem | hmem
        · exact hfailed e hmem
        · rw [List.mem_singleton.mp hmem]
          exact hok
    | _ => exact hsame

/-- A connection on which nothing is acknowledged is closed within seven polls, whatever the
client sends. If TCP still has it, `tcp_close` has failed each time. -/
theorem closed_without_acks (env : Env W) (w : W) (calls more : List (Call W))
    (hquiet : ∀ c ∈ more, c.acks = false)
    (hpolls : 2 * httpdMaxRetries - 1 ≤ more.countP Call.polls) :
    let conn := (Run.run (step env) (httpAccept w) (calls ++ more)).1.conn
    let results := closes (history env w (calls ++ more))
    conn = .gone ∨ (conn = .closing ∧ results ≠ [] ∧ ∀ e ∈ results, e ≠ .ok) := by
  intro conn results
  have hclosed : ∀ hs, conn ≠ .active hs := closed_finally env w calls more hquiet hpolls
  have hstart : Parted [] (httpAccept w).conn := (rfl : closes [] = [])
  have hparted : Parted (history env w (calls ++ more)) conn :=
    Run.history_run (J := fun (s : Sys W) out => Parted out s.conn) parted_step hstart _
  generalize conn = c at hclosed hparted
  cases c with
  | active hs => exact absurd rfl (hclosed hs)
  | closing => exact Or.inr ⟨rfl, hparted⟩
  | gone => exact Or.inl rfl

def stuckEnv : Env Unit := { smallEnv with tcpWrite := fun w _ => (.mem, w) }

theorem closed_without_acks_small :
    (Run.run (step stuckEnv) (httpAccept ()) [smallGet]).1.conn.sending = true ∧
      (Run.run (step stuckEnv) (httpAccept ()) ([smallGet] ++ List.replicate 7 .poll)).1.conn = .gone := by
  refine ⟨by decide +kernel, ?_⟩
  rcases closed_without_acks stuckEnv () [smallGet] (List.replicate 7 .poll) (by simp [Call.acks])
    (by decide) with hgone | ⟨-, -, hfailed⟩
  · exact hgone
  · exact absurd rfl (hfailed .ok (by decide +kernel))

end Closes

end Lrndis.Http
