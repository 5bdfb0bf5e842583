import Lrndis.App.CgiProofs
import Lrndis.Http.Scan
import Lrndis.Http.Request

/-!
# `app.c` and `fsdata.c`: the pages of the device

The handlers that `main` gives to the HTTP server, and `/state.shtml`, which they fill in. What
the handlers read of the board, and TCP, are behind the calls of `Board`.
-/

namespace Lrndis.Site

open Mem Template Http

/-- `readAcc` is `LIS302DL_ReadACC`, and `nullByte` is what is at the address 0. -/
structure Board (T : Type) where
  mtime : T → Int
  button : T → UInt32
  readAcc : T → (Int32 × Int32 × Int32) × T
  nullByte : UInt8
  tcpWrite : T → List UInt8 → ErrT × T
  tcpSndbuf : T → UInt16
  tcpSndqueuelen : T → UInt16
  tcpMss : T → UInt16
  tcpClose : T → ErrT × T
  memMalloc : T → Bool × T

/-- The variables of the LEDs, the LEDs, and the rest of the world. -/
structure World (T : Type) where
  led : Cgi.Leds
  lamp : Cgi.Leds
  rest : T

section Code

variable {T : Type} (board : Board T)

/-! ## CGI -/

def stateCgiHandler : List UInt8 := text "/state.shtml"

def firstByte (value : Option (List UInt8)) : UInt8 :=
  match value with
  | none => board.nullByte
  | some v => v.headD 0

/-- `if (strcmp(params[i], name) == 0) led = *values[i] == '1'` -/
def assign (name : UInt8) (param : List UInt8 × Option (List UInt8)) (led : Bool) : Bool :=
  if param.1 = [name] then firstByte board param.2 = 0x31 else led

def ctlLoop (led : Cgi.Leds) : List (List UInt8 × Option (List UInt8)) → Cgi.Leds
  | [] => led
  | param :: params =>
    ctlLoop
      { g := assign board 0x67 param led.g, o := assign board 0x6F param led.o,
        r := assign board 0x72 param led.r }
      params

def ctlCgiHandler (w : World T) (params : List (List UInt8 × Option (List UInt8))) :
    List UInt8 × World T :=
  let led := ctlLoop board w.led params
  (text "/state.shtml", { w with led := led, lamp := led })

def cgiUriTable : List (List UInt8) := [text "/state.cgi", text "/ctl.cgi"]

def cgiHandler (w : World T) (index : Nat) (params : List (List UInt8 × Option (List UInt8))) :
    List UInt8 × World T :=
  if index = 0 then (stateCgiHandler, w) else ctlCgiHandler board w params

/-! ## SSI -/

def ssiTagsTable : List (List UInt8) :=
  [text "systick", text "btn", text "acc", text "ledg", text "ledo", text "ledr"]

/-- `%u` -/
def unsignedText (n : Nat) : List UInt8 := (Nat.toDigits 10 n).map Char.toUInt8

/-- `%i` -/
def intText (i : Int) : List UInt8 :=
  if i < 0 then 0x2D :: unsignedText i.natAbs else unsignedText i.natAbs

def accText (acc : Int32 × Int32 × Int32) : List UInt8 :=
  intText acc.1.toInt ++ text ", " ++ intText acc.2.1.toInt ++ text ", " ++ intText acc.2.2.toInt

def snprintf {n : Nat} (m : Buffer n) (size : Nat) (s : List UInt8) : Nat × Buffer n :=
  (s.length, m.write 0 (s.take (size - 1) ++ [0]))

def ledByte (led : Bool) : UInt8 := 0x30 + if led then 1 else 0

/-- There is no tag with an index from six on. -/
def ssiHandler {n : Nat} (w : World T) (index : Nat) (insert : Buffer n) (insLen : Nat) :
    UInt16 × Buffer n × World T :=
  if insLen < 32 then (0, insert, w)
  else
    match index with
    | 0 =>
      let r := snprintf insert insLen (unsignedText (u32 (board.mtime w.rest)))
      (UInt16.ofNat r.1, r.2, w)
    | 1 =>
      let r := snprintf insert insLen (intText (board.button w.rest &&& 1).toNat)
      (UInt16.ofNat r.1, r.2, w)
    | 2 =>
      let acc := board.readAcc w.rest
      let r := snprintf insert insLen (accText acc.1)
      (UInt16.ofNat r.1, r.2, { w with rest := acc.2 })
    | 3 => (1, insert.setByte 0 (ledByte w.led.g), w)
    | 4 => (1, insert.setByte 0 (ledByte w.led.o), w)
    | 5 => (1, insert.setByte 0 (ledByte w.led.r), w)
    | _ => (0, insert, w)

/-! ## Pages -/

def tag (name : List UInt8) : Piece UInt8 (List UInt8) := .tag name (tagText [] name [])

def stateShtml : List (Piece UInt8 (List UInt8)) :=
  [.text (text "HTTP/1.0 200 OK\r\nServer: lwIP/1.3.1 (http://savannah.nongnu.org/projects/lwip)\r\nContent-type: text/html\r\nExpires: Fri, 10 Apr 2008 14:00:00 GMT\r\nPragma: no-cache\r\n\r\n"),
    .text (text "\x7b\n\t\"systick\": "), tag (text "systick"),
    .text (text ",\n\t\"button\": "), tag (text "btn"),
    .text (text ",\n\t\"acc\": ["), tag (text "acc"),
    .text (text "],\n\t\"leds\": \x7b \"g\": "), tag (text "ledg"),
    .text (text ", \"o\": "), tag (text "ledo"),
    .text (text ", \"r\": "), tag (text "ledr"),
    .text (text " \x7d\n\x7d\n")]

def fileStateShtml : FsFile where
  data := source stateShtml
  length_lt := by decide +kernel
  index := 0
  httpHeaderIncluded := true

/-- A file with no tag in its HTTP header. -/
structure SmallFile where
  file : FsFile
  small : file.data.length < 65536
  header : NoLeadIn (file.data.take (headerLength file true))

/-- The other files of `fsdata.c`. -/
structure Files where
  zeptoMinJs : SmallFile
  indexHtml : SmallFile
  notFoundHtml : SmallFile
  imgDiscoverySvg : SmallFile

def fsRoot (files : Files) : List (List UInt8 × FsFile) :=
  [(text "/zepto.min.js", files.zeptoMinJs.file), (text "/state.shtml", fileStateShtml),
    (text "/index.html", files.indexHtml.file), (text "/404.html", files.notFoundHtml.file),
    (text "/img/discovery.svg", files.imgDiscoverySvg.file)]

/-! ## The server -/

/-- What `http_set_cgi_handlers` and `http_set_ssi_handler` are called with in `main`. -/
def env (files : Files) : Env (World T) where
  tcpWrite w l := ((board.tcpWrite w.rest l).1, { w with rest := (board.tcpWrite w.rest l).2 })
  tcpSndbuf w := board.tcpSndbuf w.rest
  tcpSndqueuelen w := board.tcpSndqueuelen w.rest
  tcpMss w := board.tcpMss w.rest
  tcpClose w := ((board.tcpClose w.rest).1, { w with rest := (board.tcpClose w.rest).2 })
  memMalloc w := ((board.memMalloc w.rest).1, { w with rest := (board.memMalloc w.rest).2 })
  fsRoot := fsRoot files
  cgiNames := cgiUriTable
  cgiHandler := cgiHandler board
  ssiHandler := ssiHandler board
  ppcTags := ssiTagsTable

end Code

end Lrndis.Site
