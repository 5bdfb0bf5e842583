import Lrndis.Lib.Run
import Lrndis.Http.Request

/-!
# `httpd.c`: the callbacks of a connection

What TCP calls from when a connection was accepted until it is closed, in any order.
-/

namespace Lrndis.Http

open Mem Template

inductive Event
  | act (a : SendAct)
  | recved (n : Nat)
  | free (pbuf : Nat)
  /-- `http_init_file`: the file, where the answer begins in it, and whether it has tags -/
  | opened (file : Option FsFile) (start : Nat) (ssi : Bool)
  | eof
  | close (err : ErrT)
  | output
  /-- a call that does not return -/
  | hang
deriving DecidableEq

/-- What the callback argument of the pcb is. `closing` is a pcb without an argument that
could not be closed yet, and `gone` one that does not exist any more. -/
inductive Conn
  | active (hs : HttpState)
  | closing
  | gone

def Conn.sending : Conn → Bool
  | .active hs => hs.handle.isSome
  | _ => false

structure Sys (W : Type) where
  w : W
  conn : Conn

def httpdMaxRetries : Nat := 4

section Code

variable {W : Type} (env : Env W)

/-! ## Closing -/

def httpCloseConn (w : W) : Sys W × List Event :=
  let r := env.tcpClose w
  ({ w := r.2, conn := if r.1 = .ok then .gone else .closing }, [.close r.1])

def httpEof (w : W) : Sys W × List Event :=
  let r := httpCloseConn env w
  (r.1, .eof :: r.2)

/-! ## Sending -/

def httpSendDataNonssi (w : W) (data : List UInt8) (file left : Nat) : Written W :=
  let len := if (env.tcpSndbuf w).toNat < left then (env.tcpSndbuf w).toNat else u16 left
  let len := if 2 * (env.tcpMss w).toNat < len then 2 * (env.tcpMss w).toNat else len
  httpWrite env w (data.drop file) len

def HttpState.data (hs : HttpState) : List UInt8 := hs.handle.elim [] FsFile.data

structure DataSent (W : Type) where
  w : W
  hs : HttpState
  dataToSend : Bool
  acts : List SendAct

/-- `http_send_data_ssi` or `http_send_data_nonssi`. -/
def httpSendData (w : W) (hs : HttpState) : Option (DataSent W) :=
  match hs.ssi with
  | some ssi =>
    (Sending.sendDataSsi env hs.data
      { w := w, file := hs.file, left := hs.left, ssi := ssi, len := 0, err := .ok,
        dataToSend := false, acts := [] }).map
      fun s =>
        { w := s.w, hs := { hs with file := s.file, left := s.left, ssi := some s.ssi },
          dataToSend := s.dataToSend, acts := s.acts }
  | none =>
    let r := httpSendDataNonssi env w hs.data hs.file hs.left
    some (if r.err = .ok then
        { w := r.w, hs := { hs with file := hs.file + r.len, left := u32 (hs.left - r.len) },
          dataToSend := true, acts := r.acts }
      else { w := r.w, hs := hs, dataToSend := false, acts := [] })

/-- `http_check_eof`, as far as whether the file goes on. -/
def fileGoesOn (hs : HttpState) : Bool := hs.handle.any fun f => decide (0 < fsBytesLeft f)

/-- The last component is the result of the function. -/
def httpSend (w : W) (hs : HttpState) : Sys W × List Event × Bool :=
  if hs.left = 0 ∧ fileGoesOn hs = false then
    let r := httpEof env w
    (r.1, r.2, false)
  else
    match httpSendData env w hs with
    | none => ({ w := w, conn := .active hs }, [.hang], false)
    | some s =>
      if s.hs.left = 0 ∧ fileGoesOn s.hs = false then
        let r := httpEof env s.w
        (r.1, s.acts.map .act ++ r.2, false)
      else ({ w := s.w, conn := .active s.hs }, s.acts.map .act, s.dataToSend)

/-! ## Callbacks -/

def httpSent (w : W) (hs : HttpState) : Sys W × List Event :=
  let r := httpSend env w { hs with retries := 0 }
  (r.1, r.2.1)

def httpPoll (w : W) (hs : HttpState) : Sys W × List Event :=
  let hs := { hs with retries := hs.retries + 1 }
  if hs.retries = httpdMaxRetries then httpCloseConn env w
  else if hs.handle.isSome then
    let r := httpSend env w hs
    (r.1, r.2.1 ++ if r.2.2 then [.output] else [])
  else ({ w := w, conn := .active hs }, [])

def freed (pbufs : List ReqPbuf) : List Event := pbufs.map fun p => .free p.id

def recved (p : List ReqPbuf) : Event := .recved (p.flatMap ReqPbuf.payload).length

/-- `http_recv` for data, where `hs` is there and `err` is ERR_OK. -/
def httpRecvData (w : W) (hs : HttpState) (p : List ReqPbuf) : Sys W × List Event :=
  if hs.handle.isSome then
    -- Already sending: `parsed` is still ERR_ABRT, and `p` is not looked at.
    ({ w := w, conn := .active { hs with req := [] } }, recved p :: freed hs.req)
  else
    match httpParseRequest env w hs p with
    | (.ok, hs, w) =>
      let r := httpSend env w { hs with req := [] }
      (r.1, recved p :: freed hs.req ++ .opened hs.handle hs.file hs.ssi.isSome :: r.2.1)
    | (.inprogress, hs, w) => ({ w := w, conn := .active hs }, [recved p])
    | (.arg, hs, w) =>
      let r := httpCloseConn env w
      (r.1, recved p :: freed hs.req ++ r.2)
    | (_, hs, w) => ({ w := w, conn := .active { hs with req := [] } }, recved p :: freed hs.req)

def httpRecv (w : W) (hs : HttpState) (p : List ReqPbuf) (err : ErrT) : Sys W × List Event :=
  if err ≠ .ok ∨ p = [] then
    let r := httpCloseConn env w
    (r.1, (if p = [] then [] else recved p :: freed p) ++ r.2)
  else httpRecvData env w hs p

inductive Call (W : Type)
  | recv (p : List ReqPbuf) (err : ErrT)
  | sent
  | poll
  /-- `http_err`, when the pcb is gone already -/
  | err
  /-- whatever else happens to TCP and to the application -/
  | world (w : W)

def step (s : Sys W) (c : Call W) : Sys W × List Event :=
  match c, s.conn with
  | .world w, _ => ({ s with w := w }, [])
  | .recv p err, .active hs => httpRecv env s.w hs p err
  | .sent, .active hs => httpSent env s.w hs
  | .poll, .active hs => httpPoll env s.w hs
  | .poll, .closing => httpCloseConn env s.w
  | .err, .active _ => ({ s with conn := .gone }, [])
  | _, _ => (s, [])

/-- `http_accept`, where there is memory for the state of the connection. -/
def httpAccept (w : W) : Sys W := { w := w, conn := .active httpStateInit }

end Code

end Lrndis.Http
