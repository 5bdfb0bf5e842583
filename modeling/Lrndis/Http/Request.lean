import Lrndis.App.Cgi
import Lrndis.Http.Ssi

/-!
# `httpd.c`: from a request to its file

`http_parse_request`, `http_find_file` and `http_init_file`, and `fs_open` of `fs.c`. A pbuf
chain is a list, and NULL the empty one.
-/

namespace Lrndis.Http

open Mem CString

def text (s : String) : List UInt8 := s.toList.map Char.toUInt8

def crlf : List UInt8 := [0x0D, 0x0A]

/-! ## `strnstr` -/

def strnstrLoop (token : List UInt8) : List UInt8 → Nat → Option Nat
  | [], _ => none
  | c :: cs, n =>
    if c = 0 ∨ n < token.length then none
    else if (c :: cs).take token.length = token then some 0
    else (strnstrLoop token cs (n - 1)).map (· + 1)

/-- What comes out is an offset into the buffer. -/
def strnstr (buffer token : List UInt8) (n : Nat) : Option Nat :=
  if token.length = 0 then some 0 else strnstrLoop token buffer n

def strstr (s token : List UInt8) : Bool := s.tails.any fun p => p.take token.length = token

/-! ## The state of a connection -/

structure ReqPbuf where
  id : Nat
  payload : List UInt8
deriving DecidableEq

/-- `file` is NULL as long as `handle` is. -/
structure HttpState where
  handle : Option FsFile
  file : Nat
  left : Nat
  retries : Nat
  ssi : Option SsiState
  req : List ReqPbuf

def httpStateInit : HttpState :=
  { handle := none, file := 0, left := 0, retries := 0, ssi := none, req := [] }

def httpSsiStateInit : SsiState where
  parsed := 0
  tagStarted := 0
  tagEnd := 0
  parseLeft := 0
  tagIndex := 0
  tagInsertLen := 0
  tagNameLen := 0
  tagName := .zero _
  tagInsert := .zero _
  tagState := .none

/-! ## Files -/

def fsOpen (fsRoot : List (List UInt8 × FsFile)) (name : List UInt8) : Option FsFile :=
  (fsRoot.find? fun f => f.1 = name).map fun f => { f.2 with index := f.2.data.length }

def fsBytesLeft (f : FsFile) : Int := f.data.length - f.index

def gPsDefaultFilenames : List (List UInt8 × Bool) :=
  [(text "/index.shtml", true), (text "/index.ssi", true), (text "/index.shtm", true),
    (text "/index.html", false), (text "/index.htm", false)]

def gPcSSIExtensions : List (List UInt8) :=
  [text ".shtml", text ".shtm", text ".ssi", text ".xml"]

def openFirst {α : Type} (fsRoot : List (List UInt8 × FsFile)) :
    List (List UInt8 × α) → Option (FsFile × List UInt8 × α)
  | [] => none
  | (name, a) :: names =>
    match fsOpen fsRoot name with
    | some f => some (f, name, a)
    | none => openFirst fsRoot names

def httpGet404File (fsRoot : List (List UInt8 × FsFile)) : Option (FsFile × List UInt8) :=
  (openFirst fsRoot [(text "/404.html", ()), (text "/404.htm", ()), (text "/404.shtml", ())]).map
    fun r => (r.1, r.2.1)

section Code

variable {W : Type} (env : Env W)

def uriBuffer (uri : List UInt8) : Buffer (uri.length + 1) := ⟨uri ++ [0], by simp⟩

/-- The base URI is cut off at the question mark. What comes out is the memory, and where the
parameters begin. -/
def cutParams {n : Nat} (m : Buffer n) : Buffer n × Option Nat :=
  match strchr m 0x3F 0 with
  | some q => (m.setByte q 0, some (q + 1))
  | none => (m, none)

/-- The URI of the file: what the handler of a CGI returns, or else the base URI. -/
def dispatchCgi (w : W) (uri : List UInt8) : List UInt8 × W :=
  let cut := cutParams (uriBuffer uri)
  let base := read cut.1 0
  match env.cgiNames.findIdx? (· = base) with
  | some i =>
    let r := Cgi.extractUriParameters Cgi.lwipHttpdMaxCgiParameters cut.1 cut.2
    env.cgiHandler w i (r.2.map fun pair => (read r.1 pair.1, pair.2.map (read r.1)))
  | none => (base, w)

def httpFindFile (w : W) (uri : List UInt8) : Option FsFile × Bool × W :=
  if uri = text "/" then
    match openFirst env.fsRoot gPsDefaultFilenames with
    | some (f, _, shtml) => (some f, shtml, w)
    | none => ((httpGet404File env.fsRoot).map Prod.fst, false, w)
  else
    let (uri, w) := dispatchCgi env w uri
    let found :=
      match fsOpen env.fsRoot uri with
      | some f => some (f, uri)
      | none => httpGet404File env.fsRoot
    match found with
    | some (f, uri) => (some f, gPcSSIExtensions.any (strstr uri), w)
    | none => (none, false, w)

/-- How much of the file an answer to HTTP/0.9 leaves out. -/
def headerLength (f : FsFile) (is09 : Bool) : Nat :=
  if f.httpHeaderIncluded ∧ is09 then
    match strnstr f.data (crlf ++ crlf) f.data.length with
    | some start => start + 4
    | none => 0
  else 0

def httpInitFile (w : W) (hs : HttpState) (file : Option FsFile) (is09 tagCheck : Bool) :
    HttpState × W :=
  match file with
  | some f =>
    let alloc := if tagCheck then env.memMalloc w else (false, w)
    ({ hs with
        handle := some f, file := headerLength f is09, left := u32 (f.data.length - headerLength f is09),
        retries := 0,
        ssi := if alloc.1 then some { httpSsiStateInit with parseLeft := f.data.length } else hs.ssi },
      alloc.2)
  | none => ({ hs with handle := none, file := 0, left := 0, retries := 0 }, w)

/-! ## Requests -/

def lwipHttpdReqQueuelen : Nat := 5

def lwipHttpdMaxReqLength : Nat := 1023

def minReqLen : Nat := 7

inductive Request
  | more
  | bad
  | get (uri : List UInt8) (is09 : Bool)
deriving DecidableEq

def parseRequest (data : List UInt8) : Request :=
  if minReqLen ≤ data.length ∧ strnstr data crlf data.length ≠ none then
    if data.take 4 = text "GET " then
      let rest := data.drop 4
      let sp2 :=
        match strnstr rest (text " ") (data.length - 4) with
        | some i => (some i, false)
        | none => (strnstr rest crlf (data.length - 4), true)
      match sp2 with
      | (some i, is09) =>
        if strnstr data (crlf ++ crlf) data.length ≠ none then .get (rest.take i) is09 else .more
      | (none, _) => .more
    else .bad
  else .more

/-- `data` and `data_len`: the payload of a single pbuf, or the request buffer. -/
def requestData : List ReqPbuf → List UInt8
  | [p] => p.payload
  | req => (req.flatMap ReqPbuf.payload).take lwipHttpdMaxReqLength

def httpParseRequest (w : W) (hs : HttpState) (p : List ReqPbuf) : ErrT × HttpState × W :=
  if hs.handle.isSome then (.use, hs, w)
  else
    let hs := { hs with req := hs.req ++ p }
    match parseRequest (requestData hs.req) with
    | .get uri is09 =>
      let (file, tagCheck, w) := httpFindFile env w uri
      let (hs, w) := httpInitFile env w hs file is09 tagCheck
      (.ok, hs, w)
    | .bad => (.arg, hs, w)
    | .more =>
      if (hs.req.flatMap ReqPbuf.payload).length ≤ lwipHttpdMaxReqLength ∧
          hs.req.length ≤ lwipHttpdReqQueuelen then (.inprogress, hs, w)
      else (.arg, hs, w)

end Code

end Lrndis.Http
