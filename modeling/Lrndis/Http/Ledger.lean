import Mathlib.Data.List.Nodup
import Lrndis.Http.Connection

/-!
# The pbufs of a connection

Each pbuf that is received is freed once, belongs to a request that is not complete, or is
lost: it came in while a file was being sent, or its request was not complete when the
connection came to its end.
-/

namespace Lrndis.Http

variable {W : Type} {env : Env W}

def ids (p : List ReqPbuf) : List Nat := p.map ReqPbuf.id

def frees (out : List Event) : List Nat :=
  out.filterMap fun
    | .free p => some p
    | _ => none

def Sys.queued (s : Sys W) : List Nat :=
  match s.conn with
  | .active hs => ids hs.req
  | _ => []

def received (s : Sys W) (c : Call W) : List Nat :=
  match s.conn, c with
  | .active _, .recv p _ => ids p
  | _, _ => []

def lost (s : Sys W) (c : Call W) : List Nat :=
  match s.conn, c with
  | .active hs, .recv p err =>
    if err ≠ .ok ∨ p = [] then ids hs.req
    else if hs.handle.isSome then ids p
    else []
  | .active hs, .err => ids hs.req
  | .active hs, .poll => if hs.retries + 1 = httpdMaxRetries then ids hs.req else []
  | .active hs, .sent => if hs.handle.isSome then [] else ids hs.req
  | _, _ => []

/-! ## What is freed -/

section Frees

@[simp] theorem frees_append (out more : List Event) : frees (out ++ more) = frees out ++ frees more :=
  List.filterMap_append

@[simp] theorem frees_freed (p : List ReqPbuf) : frees (freed p) = ids p := by
  simp [frees, freed, ids, List.filterMap_map]

@[simp] theorem frees_recved (p : List ReqPbuf) (out : List Event) :
    frees (recved p :: out) = frees out := rfl

@[simp] theorem frees_close (env : Env W) (w : W) : frees (httpCloseConn env w).2 = [] := rfl

theorem frees_send (env : Env W) (w : W) (hs : HttpState) : frees (httpSend env w hs).2.1 = [] := by
  have hacts : ∀ l : List SendAct, frees (l.map .act) = [] := by
    intro l
    simp [frees, List.filterMap_map]
  unfold httpSend
  split
  · rfl
  · split
    · rfl
    · simp only
      split
      · rw [frees_append, hacts]
        rfl
      · exact hacts _

end Frees

/-! ## Steps -/

/-- There is no request left once it is answered, and nothing to send before. -/
structure Tidy (hs : HttpState) : Prop where
  req : hs.handle.isSome → hs.req = []
  left : hs.handle = none → hs.left = 0

def Sys.Tidy (s : Sys W) : Prop := ∀ hs, s.conn = .active hs → Http.Tidy hs

section Steps

variable {hs : HttpState}

theorem queued_closed {s : Sys W} (h : Closed s) : s.queued = [] := by
  unfold Sys.queued
  split
  · rename_i hs hactive
    exact absurd hactive (h hs)
  · rfl

@[simp] theorem queued_active (w : W) (hs : HttpState) :
    Sys.queued { w := w, conn := .active hs } = ids hs.req := rfl

theorem closed_send (hnone : hs.handle = none) (hleft : hs.left = 0) (w : W) :
    Closed (httpSend env w hs).1 := by
  have hend : hs.left = 0 ∧ fileGoesOn hs = false := by
    simp [fileGoesOn, hnone, hleft]
  rw [httpSend, if_pos hend]
  exact closeConn_conn w

theorem tidy_send (env : Env W) (h : Tidy hs) (w : W) :
    (httpSend env w hs).1.Tidy ∧ (httpSend env w hs).1.queued = [] := by
  have hclosed : Closed (httpSend env w hs).1 →
      (httpSend env w hs).1.Tidy ∧ (httpSend env w hs).1.queued = [] :=
    fun hc => ⟨fun hs' hactive => absurd hactive (hc hs'), queued_closed hc⟩
  cases hhandle : hs.handle with
  | none => exact hclosed (closed_send hhandle (h.left hhandle) w)
  | some f =>
    rcases kept_httpSend env w hs with hc | ⟨hs', hconn, hsame, -, hreq⟩
    · exact hclosed hc
    · have hnil : hs'.req = [] := hreq.trans (h.req (by simp [hhandle]))
      simp only [Sys.Tidy, Sys.queued, hconn, hnil, Conn.active.injEq, ids, List.map_nil, and_true]
      rintro hs'' rfl
      exact ⟨fun _ => hnil, fun hnone => by simp [hsame, hhandle] at hnone⟩

theorem tidy_init (env : Env W) (w : W) (hs : HttpState) (file : Option FsFile) (is09 tagCheck : Bool) :
    Tidy { (httpInitFile env w hs file is09 tagCheck).1 with req := [] } := by
  cases file with
  | none => exact ⟨fun _ => rfl, fun _ => rfl⟩
  | some f => exact ⟨fun _ => rfl, fun hnone => by simp [httpInitFile] at hnone⟩

theorem balance_recv (h : Tidy hs) (w : W) (p : List ReqPbuf) (err : ErrT) :
    (httpRecv env w hs p err).1.Tidy ∧
      (ids hs.req ++ ids p).Perm
        (frees (httpRecv env w hs p err).2 ++ (httpRecv env w hs p err).1.queued ++
          lost { w := w, conn := .active hs } (.recv p err)) := by
  have hclosed : (httpCloseConn env w).1.Tidy ∧ (httpCloseConn env w).1.queued = [] :=
    ⟨fun hs' hactive => absurd hactive (closeConn_conn w hs'), queued_closed (closeConn_conn w)⟩
  have hids : ∀ q r, ids (q ++ r) = ids q ++ ids r := fun q r => List.map_append
  unfold httpRecv lost
  simp only
  split
  · refine ⟨hclosed.1, ?_⟩
    have htaken : frees (if p = [] then [] else recved p :: freed p) = ids p := by
      split
      · rename_i hp
        rw [hp]
        rfl
      · simp
    rw [frees_append, htaken, frees_close, hclosed.2, List.append_nil, List.append_nil]
    exact List.perm_append_comm
  · unfold httpRecvData
    split
    · -- A file is being sent, and the pbufs are lost.
      rename_i hsome
      have hreq := h.req hsome
      refine ⟨?_, ?_⟩
      · rintro hs' hactive
        obtain rfl := Conn.active.inj hactive
        exact ⟨fun _ => rfl, h.left⟩
      · simp [Sys.queued, hreq, ids]
    · rename_i hnone
      have hhandle : hs.handle = none := by simpa using hnone
      rcases parseRequest_cases env hhandle w p with ⟨uri, is09, -, hparse⟩ | hparse | hparse
      · have hreq := req_httpInitFile env (httpFindFile env w uri).2.2
          { hs with req := hs.req ++ p } (httpFindFile env w uri).1 is09 (httpFindFile env w uri).2.1
        have htidy := tidy_init env (httpFindFile env w uri).2.2 { hs with req := hs.req ++ p }
          (httpFindFile env w uri).1 is09 (httpFindFile env w uri).2.1
        generalize httpInitFile env (httpFindFile env w uri).2.2 { hs with req := hs.req ++ p }
          (httpFindFile env w uri).1 is09 (httpFindFile env w uri).2.1 = r at hparse hreq htidy
        obtain ⟨hsent, hqueued⟩ := tidy_send env htidy r.2
        have hopened : ∀ out, frees (.opened r.1.handle r.1.file r.1.ssi.isSome :: out) = frees out :=
          fun _ => rfl
        rw [hparse]
        refine ⟨hsent, ?_⟩
        simp only [hreq, hqueued, frees_append, frees_recved, frees_freed, hopened, frees_send, hids,
          List.append_nil]
        exact List.Perm.refl _
      · -- The request is not complete, and keeps them.
        rw [hparse]
        refine ⟨?_, ?_⟩
        · rintro hs' hactive
          obtain rfl := Conn.active.inj hactive
          exact ⟨fun hsome => absurd hsome hnone, h.left⟩
        · simp [Sys.queued, hids, frees, recved]
      · rw [hparse]
        refine ⟨hclosed.1, ?_⟩
        simp [hclosed.2, hids]

theorem balance_step (s : Sys W) (c : Call W) (h : s.Tidy) :
    (step env s c).1.Tidy ∧
      (s.queued ++ received s c).Perm
        (frees (step env s c).2 ++ (step env s c).1.queued ++ lost s c) := by
  obtain ⟨w, conn⟩ := s
  have hclosed : (httpCloseConn env w).1.Tidy ∧ (httpCloseConn env w).1.queued = [] :=
    ⟨fun hs' hactive => absurd hactive (closeConn_conn w hs'), queued_closed (closeConn_conn w)⟩
  cases conn with
  | closing =>
    cases c with
    | poll =>
      refine ⟨hclosed.1, ?_⟩
      simp only [step, hclosed.2]
      exact List.Perm.refl _
    | _ => exact ⟨h, by simp [step, received, lost, Sys.queued, frees]⟩
  | gone =>
    cases c <;> exact ⟨h, by simp [step, received, lost, Sys.queued, frees]⟩
  | active hs =>
    have htidy := h hs rfl
    cases c with
    | recv p err => exact balance_recv htidy w p err
    | world w' => exact ⟨h, by simp [step, received, lost, Sys.queued, frees]⟩
    | err => exact ⟨by simp [step, Sys.Tidy], by simp [step, received, lost, Sys.queued, frees]⟩
    | sent =>
      have hreset : Tidy { hs with retries := 0 } := ⟨htidy.req, htidy.left⟩
      obtain ⟨hsent, hqueued⟩ := tidy_send env hreset w
      refine ⟨hsent, ?_⟩
      simp only [step, httpSent, frees_send, hqueued, received, lost, queued_active]
      split
      · rename_i hsome
        rw [htidy.req hsome]
        exact List.Perm.refl _
      · simp
    | poll =>
      have hretried : Tidy { hs with retries := hs.retries + 1 } := ⟨htidy.req, htidy.left⟩
      obtain ⟨hsent, hqueued⟩ := tidy_send env hretried w
      simp only [step, httpPoll, received, lost]
      split
      · exact ⟨hclosed.1, by simp [hclosed.2]⟩
      · split
        · rename_i hsome
          refine ⟨hsent, ?_⟩
          have hflush : ∀ b : Bool, frees (if b then [.output] else []) = [] := by
            intro b
            cases b <;> rfl
          rw [frees_append, frees_send, hflush, hqueued, queued_active, htidy.req hsome]
          exact List.Perm.refl _
        · refine ⟨?_, by simp [frees]⟩
          rintro hs' hactive
          obtain rfl := Conn.active.inj hactive
          exact hretried

theorem tidy_accept (w : W) : (httpAccept w).Tidy := by
  rintro hs hactive
  obtain rfl := Conn.active.inj hactive
  exact ⟨fun _ => rfl, fun _ => rfl⟩

theorem balance_run {s : Sys W} (h : s.Tidy) (calls : List (Call W)) :
    (s.queued ++ Run.gather (step env) received s calls).Perm
      (frees (Run.run (step env) s calls).2 ++ (Run.run (step env) s calls).1.queued ++
        Run.gather (step env) lost s calls) :=
  Run.conserved rfl frees_append (fun s c h => (balance_step s c h).1)
    (fun s c h => (balance_step s c h).2) h calls

/-- In every run, each pbuf that is received is freed once, is in the request that is not
complete, or was lost. -/
theorem pbufs_balance (env : Env W) (w : W) (calls : List (Call W)) :
    (Run.gather (step env) received (httpAccept w) calls).Perm
      (frees (history env w calls) ++ (Run.run (step env) (httpAccept w) calls).1.queued ++
        Run.gather (step env) lost (httpAccept w) calls) :=
  balance_run (tidy_accept w) calls

/-- What comes in while a file is being sent is not freed, then or later. -/
theorem sending_leaks (env : Env W) (w : W) (calls more : List (Call W)) {p : List ReqPbuf}
    (hdistinct : (Run.gather (step env) received (httpAccept w)
      (calls ++ .recv p .ok :: more)).Nodup)
    {hs : HttpState} (hactive : (Run.run (step env) (httpAccept w) calls).1.conn = .active hs)
    (hsending : hs.handle.isSome) :
    ∀ q ∈ p, q.id ∉ frees (history env w (calls ++ .recv p .ok :: more)) := by
  intro q hq hfreed
  have hne : ¬(ErrT.ok ≠ .ok ∨ p = []) := by
    rintro (hok | rfl)
    · exact hok rfl
    · exact List.not_mem_nil hq
  have hlost : q.id ∈ Run.gather (step env) lost (httpAccept w) (calls ++ .recv p .ok :: more) := by
    rw [Run.gather_append, Run.gather]
    apply List.mem_append_right
    apply List.mem_append_left
    simp only [lost, hactive, if_neg hne, if_pos hsending]
    exact List.mem_map_of_mem hq
  have hnodup := (balance_run (tidy_accept w) (calls ++ .recv p .ok :: more)).nodup hdistinct
  rw [List.append_assoc] at hnodup
  exact List.disjoint_of_nodup_append hnodup hfreed (List.mem_append_right _ hlost)

theorem sending_leaks_small :
    7 ∉ frees (history smallEnv () ([smallGet] ++ .recv [⟨7, text "GET"⟩] .ok :: [.sent, .poll])) := by
  obtain ⟨hs, hactive, hsome⟩ := exists_of_sending
    (by decide +kernel : (Run.run (step smallEnv) (httpAccept ()) [smallGet]).1.conn.sending = true)
  exact sending_leaks smallEnv () [smallGet] [.sent, .poll] (by decide +kernel) hactive hsome
    ⟨7, text "GET"⟩ List.mem_cons_self

end Steps

end Lrndis.Http
