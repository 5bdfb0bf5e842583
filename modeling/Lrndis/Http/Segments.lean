import Lrndis.Http.Connection

/-!
# How a request comes in

A request is the same to the server in whatever segments and pbufs it comes.
-/

namespace Lrndis.Http

variable {W : Type} {env : Env W}

/-! ## `strnstr` -/

section Strnstr

variable {token l q : List UInt8} {i n : Nat}

theorem strnstrLoop_prefix (h : strnstrLoop token l l.length = some i) (hq : q <+: l)
    (hshort : q.length < i + token.length) : strnstrLoop token q q.length = none := by
  induction l generalizing q i with
  | nil => contradiction
  | cons c l ih =>
    cases q with
    | nil => rfl
    | cons d q =>
      obtain ⟨rfl, hrest⟩ := List.cons_prefix_cons.mp hq
      rw [strnstrLoop] at h
      rw [strnstrLoop]
      split at h
      · contradiction
      · rename_i hstop
        split
        · rfl
        · rename_i hroom
          split at h
          · -- It begins here, and there is no room for it.
            obtain rfl := Option.some.inj h
            exact absurd (Or.inr (by omega)) hroom
          · rename_i hdiff
            obtain ⟨j, hj, rfl⟩ := Option.map_eq_some_iff.mp h
            have hsame : (d :: q).take token.length = (d :: l).take token.length := by
              obtain ⟨rest, rfl⟩ := hrest
              rw [← List.cons_append, List.take_append_of_le_length (by omega)]
            rw [if_neg (hsame ▸ hdiff)]
            simp only [List.length_cons, Nat.add_sub_cancel] at hj hshort ⊢
            rw [ih hj hrest (by omega)]
            rfl

/-- What begins with a token is found no earlier than the token itself. -/
theorem strnstrLoop_shorter {more : List UInt8} (h : strnstrLoop (token ++ more) l n = some i) :
    strnstrLoop token l n ≠ none := by
  induction l generalizing n i with
  | nil => contradiction
  | cons c l ih =>
    rw [strnstrLoop] at h ⊢
    split at h
    · contradiction
    · rename_i hstop
      rw [List.length_append] at hstop h
      have hroom : ¬(c = 0 ∨ n < token.length) := by
        rintro (hzero | hlt)
        · exact hstop (Or.inl hzero)
        · exact hstop (Or.inr (by omega))
      rw [if_neg hroom]
      split
      · simp
      · rename_i hdiff
        split at h
        · rename_i hsame
          have htake := congrArg (List.take token.length) hsame
          rw [List.take_take, Nat.min_eq_left (Nat.le_add_right _ _), List.take_left] at htake
          exact absurd htake hdiff
        · obtain ⟨j, hj, rfl⟩ := Option.map_eq_some_iff.mp h
          simpa using ih hj

theorem strnstrLoop_char {c : UInt8} (hl : ∀ d ∈ l, d ≠ 0 ∧ d ≠ c) (hc : c ≠ 0) (rest : List UInt8)
    (hn : l.length < n) : strnstrLoop [c] (l ++ c :: rest) n = some l.length := by
  induction l generalizing n with
  | nil =>
    have hroom : ¬(c = 0 ∨ n < [c].length) := by
      rintro (hzero | hlt)
      · exact hc hzero
      · exact absurd hn (by simpa using hlt)
    have hsame : (c :: rest).take [c].length = [c] := rfl
    rw [List.nil_append, strnstrLoop, if_neg hroom, if_pos hsame]
    rfl
  | cons d l ih =>
    obtain ⟨hzero, hne⟩ := hl d List.mem_cons_self
    rw [List.length_cons] at hn
    have hroom : ¬(d = 0 ∨ n < [c].length) := by
      rintro (h | hlt)
      · exact hzero h
      · rw [List.length_singleton] at hlt
        omega
    have hdiff : (d :: (l ++ c :: rest)).take [c].length ≠ [c] := by
      simpa using hne
    rw [List.cons_append, strnstrLoop, if_neg hroom, if_neg hdiff,
      ih (fun e he => hl e (List.mem_cons_of_mem d he)) (by omega)]
    rfl

end Strnstr

/-! ## What is asked for -/

/-- A request for `uri`, up to its first blank line. -/
structure GetRequest (uri l : List UInt8) : Prop where
  line : ∃ rest, l = text "GET " ++ (uri ++ 0x20 :: rest) ++ (crlf ++ crlf)
  plain : ∀ c ∈ uri, c ≠ 0 ∧ c ≠ 0x20
  blank : strnstr l (crlf ++ crlf) l.length = some (l.length - 4)

section Requests

variable {uri l q : List UInt8}

theorem length_crlf : (crlf ++ crlf).length = 4 := rfl

theorem getRequest_length (h : GetRequest uri l) : 9 + uri.length ≤ l.length := by
  obtain ⟨rest, rfl⟩ := h.line
  have hget : (text "GET ").length = 4 := by decide
  simp only [List.length_append, List.length_cons, hget, crlf, List.length_nil]
  omega

theorem parse_getRequest (h : GetRequest uri l) : parseRequest l = .get uri false := by
  have hlen := getRequest_length h
  have hblank := h.blank
  have hcrlf : strnstr l crlf l.length ≠ none := by
    rw [strnstr, if_neg (by decide)] at hblank ⊢
    exact strnstrLoop_shorter hblank
  have hget : (text "GET ").length = 4 := by decide
  obtain ⟨rest, hline⟩ := h.line
  have htake : l.take 4 = text "GET " := by
    rw [hline, List.append_assoc]
    exact List.take_left' hget
  have hdrop : l.drop 4 = uri ++ 0x20 :: (rest ++ (crlf ++ crlf)) := by
    rw [hline, List.append_assoc]
    exact (List.drop_left' hget).trans (by simp)
  have hspace : text " " = [0x20] := by decide
  have hsp2 : strnstr (l.drop 4) (text " ") (l.length - 4) = some uri.length := by
    rw [hdrop, hspace, strnstr, if_neg (by decide)]
    exact strnstrLoop_char h.plain (by decide) _ (by omega)
  have huri : (l.drop 4).take uri.length = uri := by
    rw [hdrop]
    exact List.take_left' rfl
  have henough : minReqLen ≤ l.length ∧ strnstr l crlf l.length ≠ none :=
    ⟨by simp only [minReqLen]; omega, hcrlf⟩
  have hfound : strnstr l (crlf ++ crlf) l.length ≠ none := by simp [hblank]
  simp only [parseRequest, if_pos henough, if_pos htake, hsp2, if_pos hfound, huri]

theorem parse_prefix (h : GetRequest uri l) (hq : q <+: l) (hlt : q.length < l.length) :
    parseRequest q = .more := by
  have hlen := getRequest_length h
  have hget : (text "GET ").length = 4 := by decide
  have hblank : strnstr q (crlf ++ crlf) q.length = none := by
    have hl := h.blank
    rw [strnstr, if_neg (by decide)] at hl ⊢
    apply strnstrLoop_prefix hl hq
    rw [length_crlf]
    omega
  unfold parseRequest
  split
  · rename_i henough
    have htake : q.take 4 = text "GET " := by
      obtain ⟨rest, hline⟩ := h.line
      obtain ⟨more, hmore⟩ := hq
      have hroom : 4 ≤ q.length := Nat.le_trans (by decide) henough.1
      calc q.take 4 = l.take 4 := by rw [← hmore, List.take_append_of_le_length hroom]
        _ = text "GET " := by
          rw [hline, List.append_assoc]
          exact List.take_left' hget
    simp only [if_pos htake]
    split
    · rw [if_neg (by simp [hblank])]
    · rfl
  · rfl

end Requests

/-! ## Segments -/

section Segments

variable {uri l : List UInt8}

theorem requestData_eq {req : List ReqPbuf}
    (h : (req.flatMap ReqPbuf.payload).length ≤ lwipHttpdMaxReqLength) :
    requestData req = req.flatMap ReqPbuf.payload := by
  unfold requestData
  split
  · simp
  · exact List.take_of_length_le h

def waitingFor (w : W) (req : List ReqPbuf) : Sys W :=
  { w := w, conn := .active { httpStateInit with req := req } }

theorem step_incomplete (w : W) {req p : List ReqPbuf} (hp : p ≠ [])
    (hmore : parseRequest ((req ++ p).flatMap ReqPbuf.payload) = .more)
    (hlen : ((req ++ p).flatMap ReqPbuf.payload).length ≤ lwipHttpdMaxReqLength)
    (hclen : (req ++ p).length ≤ lwipHttpdReqQueuelen) :
    step env (waitingFor w req) (.recv p .ok) = (waitingFor w (req ++ p), [recved p]) := by
  have hgo : ¬(ErrT.ok ≠ .ok ∨ p = []) := by simp [hp]
  have hnone : ¬(httpStateInit.handle.isSome) := by simp [httpStateInit]
  have hparse : httpParseRequest env w { httpStateInit with req := req } p =
      (.inprogress, { httpStateInit with req := req ++ p }, w) := by
    simp only [httpParseRequest, if_neg hnone, requestData_eq hlen, hmore, if_pos (And.intro hlen hclen)]
  simp only [step, waitingFor, httpRecv, if_neg hgo, httpRecvData, if_neg hnone, hparse]

theorem run_incomplete (env : Env W) (w : W) {segs : List (List ReqPbuf)} {req : List ReqPbuf}
    (hsegs : ∀ p ∈ segs, p ≠ [])
    (hmore : ∀ q, q <+: (req ++ segs.flatten).flatMap ReqPbuf.payload → parseRequest q = .more)
    (hlen : ((req ++ segs.flatten).flatMap ReqPbuf.payload).length ≤ lwipHttpdMaxReqLength)
    (hclen : (req ++ segs.flatten).length ≤ lwipHttpdReqQueuelen) :
    Run.run (step env) (waitingFor w req) (segs.map fun p => .recv p .ok) =
      (waitingFor w (req ++ segs.flatten), segs.map recved) := by
  induction segs generalizing req with
  | nil => simp
  | cons p segs ih =>
    have hassoc : req ++ (p :: segs).flatten = req ++ p ++ segs.flatten := by simp
    rw [hassoc] at hmore hlen hclen ⊢
    have hprefix : (req ++ p).flatMap ReqPbuf.payload <+:
        (req ++ p ++ segs.flatten).flatMap ReqPbuf.payload :=
      ⟨segs.flatten.flatMap ReqPbuf.payload, List.flatMap_append.symm⟩
    have hstep : step env (waitingFor w req) (.recv p .ok) = (waitingFor w (req ++ p), [recved p]) := by
      refine step_incomplete w (hsegs p List.mem_cons_self) (hmore _ hprefix)
        (Nat.le_trans hprefix.length_le hlen) (Nat.le_trans ?_ hclen)
      simp
    rw [List.map_cons, Run.run_cons, hstep, ih (fun q hq => hsegs q (List.mem_cons_of_mem p hq)) hmore hlen hclen]
    rfl

def answer (env : Env W) (w : W) (uri : List UInt8) : Sys W × List Event :=
  let found := httpFindFile env w uri
  let opened := httpInitFile env found.2.2 httpStateInit found.1 false found.2.1
  let sent := httpSend env opened.2 opened.1
  (sent.1, .opened opened.1.handle opened.1.file opened.1.ssi.isSome :: sent.2.1)

theorem httpInitFile_req (env : Env W) (w : W) (req : List ReqPbuf) (file : Option FsFile)
    (is09 tagCheck : Bool) :
    httpInitFile env w { httpStateInit with req := req } file is09 tagCheck =
      ({ (httpInitFile env w httpStateInit file is09 tagCheck).1 with req := req },
        (httpInitFile env w httpStateInit file is09 tagCheck).2) := by
  cases file <;> rfl

theorem step_complete (w : W) {req p : List ReqPbuf} (hp : p ≠ [])
    (hget : parseRequest (requestData (req ++ p)) = .get uri false) :
    step env (waitingFor w req) (.recv p .ok) =
      ((answer env w uri).1, recved p :: freed (req ++ p) ++ (answer env w uri).2) := by
  have hgo : ¬(ErrT.ok ≠ .ok ∨ p = []) := by simp [hp]
  have hnone : ¬(httpStateInit.handle.isSome) := by simp [httpStateInit]
  have hempty : (httpInitFile env (httpFindFile env w uri).2.2 httpStateInit
      (httpFindFile env w uri).1 false (httpFindFile env w uri).2.1).1.req = [] :=
    req_httpInitFile env _ _ _ _ _
  have hparse : httpParseRequest env w { httpStateInit with req := req } p =
      (.ok, httpInitFile env (httpFindFile env w uri).2.2 { httpStateInit with req := req ++ p }
        (httpFindFile env w uri).1 false (httpFindFile env w uri).2.1) := by
    simp only [httpParseRequest, if_neg hnone, hget]
  simp only [step, waitingFor, httpRecv, if_neg hgo, httpRecvData, if_neg hnone, hparse,
    httpInitFile_req, answer]
  generalize httpInitFile env (httpFindFile env w uri).2.2 httpStateInit (httpFindFile env w uri).1
    false (httpFindFile env w uri).2.1 = r at hempty
  have hsame : { r.1 with req := [] } = r.1 := by
    rw [← hempty]
  rw [hsame]

/-- A request for `uri`, as it comes in: a few pbufs in each segment, and something in the last. -/
structure Arrives (uri : List UInt8) (segs : List (List ReqPbuf)) (last : List ReqPbuf) : Prop where
  request : GetRequest uri ((segs.flatten ++ last).flatMap ReqPbuf.payload)
  segs_ne : ∀ p ∈ segs, p ≠ []
  last_ne : last.flatMap ReqPbuf.payload ≠ []
  length_le : ((segs.flatten ++ last).flatMap ReqPbuf.payload).length ≤ lwipHttpdMaxReqLength
  clen_le : segs.flatten.length ≤ lwipHttpdReqQueuelen

def arrival (segs : List (List ReqPbuf)) (last : List ReqPbuf) : List (Call W) :=
  (segs ++ [last]).map fun p => .recv p .ok

/-- A request is answered when it is complete, and no sooner. -/
theorem run_arrival (env : Env W) (w : W) {segs : List (List ReqPbuf)} {last : List ReqPbuf}
    (h : Arrives uri segs last) :
    Run.run (step env) (httpAccept w) (arrival segs last) =
      ((answer env w uri).1,
        segs.map recved ++ recved last :: freed (segs.flatten ++ last) ++ (answer env w uri).2) := by
  have hwhole : (segs.flatten ++ last).flatMap ReqPbuf.payload =
      segs.flatten.flatMap ReqPbuf.payload ++ last.flatMap ReqPbuf.payload := List.flatMap_append
  have hbefore : (segs.flatten.flatMap ReqPbuf.payload).length <
      ((segs.flatten ++ last).flatMap ReqPbuf.payload).length := by
    have hpos := List.length_pos_iff.mpr h.last_ne
    rw [hwhole, List.length_append]
    omega
  have hlen := h.length_le
  have hnil : last ≠ [] := by
    rintro rfl
    exact h.last_ne rfl
  -- Up to the last segment something is missing.
  have hmore : ∀ q, q <+: ([] ++ segs.flatten).flatMap ReqPbuf.payload →
      parseRequest q = .more := by
    intro q hq
    rw [List.nil_append] at hq
    exact parse_prefix h.request (hq.trans ⟨_, hwhole.symm⟩)
      (Nat.lt_of_le_of_lt hq.length_le hbefore)
  have hrun := run_incomplete env w h.segs_ne hmore (by rw [List.nil_append]; omega) h.clen_le
  have hget : parseRequest (requestData (segs.flatten ++ last)) = .get uri false := by
    rw [requestData_eq hlen]
    exact parse_getRequest h.request
  have hstep : step env (waitingFor w segs.flatten) (.recv last .ok) =
      ((answer env w uri).1, recved last :: freed (segs.flatten ++ last) ++ (answer env w uri).2) :=
    step_complete w hnil hget
  have hstart : httpAccept w = waitingFor w [] := rfl
  rw [arrival, List.map_append, List.map_singleton, Run.run_snoc, hstart, hrun, List.nil_append, hstep]
  simp

theorem silent_arrival (segs : List (List ReqPbuf)) (last : List ReqPbuf) :
    Silent (segs.map recved ++ recved last :: freed (segs.flatten ++ last)) := by
  have hsegs : Silent (segs.map recved) := by
    induction segs with
    | nil => exact silent_nil
    | cons p segs ih => exact silent_append (silent_recved p) ih
  exact silent_append hsegs (silent_append (silent_recved last) (silent_freed _))

theorem history_arrival (env : Env W) (w : W) {segs : List (List ReqPbuf)} {last : List ReqPbuf}
    (h : Arrives uri segs last) (more : List (Call W)) :
    history env w (arrival segs last ++ more) =
      (segs.map recved ++ recved last :: freed (segs.flatten ++ last)) ++
        ((answer env w uri).2 ++ (Run.run (step env) (answer env w uri).1 more).2) := by
  rw [history, Run.run_append, run_arrival env w h]
  simp

/-- A request is the same to the server in whatever segments and pbufs it comes: what is sent
for it, then and later, and where the connection ends. -/
theorem request_in_segments (env : Env W) (w : W) {segs segs' : List (List ReqPbuf)}
    {last last' : List ReqPbuf} (h : Arrives uri segs last) (h' : Arrives uri segs' last')
    (more : List (Call W)) :
    (Run.run (step env) (httpAccept w) (arrival segs last ++ more)).1 =
        (Run.run (step env) (httpAccept w) (arrival segs' last' ++ more)).1 ∧
      openings (history env w (arrival segs last ++ more)) =
        openings (history env w (arrival segs' last' ++ more)) ∧
      acts (history env w (arrival segs last ++ more)) =
        acts (history env w (arrival segs' last' ++ more)) := by
  refine ⟨?_, ?_, ?_⟩
  · simp only [Run.run_append, run_arrival env w h, run_arrival env w h']
  · simp only [history_arrival env w h, history_arrival env w h', openings_append,
      (silent_arrival _ _).openings_eq]
  · simp only [history_arrival env w h, history_arrival env w h', acts_append,
      (silent_arrival _ _).acts_eq]

theorem getRequest_small : GetRequest (text "/a.shtml") (text "GET /a.shtml HTTP/1.0\r\n\r\n") where
  line := ⟨text "HTTP/1.0", by decide +kernel⟩
  plain := by decide +kernel
  blank := by decide +kernel

theorem arrives_small :
    Arrives (text "/a.shtml") [] [⟨0, text "GET /a.shtml HTTP/1.0\r\n\r\n"⟩] where
  request := getRequest_small
  segs_ne := by simp
  last_ne := by decide +kernel
  length_le := by decide +kernel
  clen_le := by decide +kernel

theorem arrives_small_parts :
    Arrives (text "/a.shtml") [[⟨0, text "GET /a."⟩], [⟨1, text "shtml"⟩, ⟨2, text " "⟩]]
      [⟨3, text "HTTP/1.0\r\n\r\n"⟩] where
  request := getRequest_small
  segs_ne := by decide +kernel
  last_ne := by decide +kernel
  length_le := by decide +kernel
  clen_le := by decide +kernel

theorem request_in_segments_small :
    acts (history smallEnv () (arrival [] [⟨0, text "GET /a.shtml HTTP/1.0\r\n\r\n"⟩] ++ [.sent])) =
      acts (history smallEnv () (arrival [[⟨0, text "GET /a."⟩], [⟨1, text "shtml"⟩, ⟨2, text " "⟩]]
        [⟨3, text "HTTP/1.0\r\n\r\n"⟩] ++ [.sent])) :=
  (request_in_segments smallEnv () arrives_small arrives_small_parts [.sent]).2.2

end Segments

end Lrndis.Http
