import Mathlib.Algebra.Group.Int.Defs
import Lrndis.Lib.CString
import Lrndis.Lib.Template
import Lrndis.Lib.While

/-!
# `httpd.c`: how a file is sent

`http_write`, and the state machine of `http_send_data_ssi` that replaces the tags of a
file while it sends it. The file is in memory, and a pointer into it is an offset. The pcb
and the application are behind the calls of `Env`.
-/

namespace Lrndis.Http

open Mem CString Template

inductive ErrT
  | ok
  | mem
  | inprogress
  | val
  | use
  | abrt
  | conn
  | arg
deriving DecidableEq, Repr

def lwipHttpdMaxTagNameLen : Nat := 8

def lwipHttpdMaxTagInsertLen : Nat := 192

/-- `(4 * TCP_SND_BUF + (TCP_MSS - 1)) / TCP_MSS`, with a buffer of two segments. -/
def tcpSndQueuelen : Nat := 8

/-- `len` is an `int`. -/
structure FsFile where
  data : List UInt8
  length_lt : data.length < 2147483648
  index : Nat
  httpHeaderIncluded : Bool
deriving DecidableEq

/-- What `httpd.c` calls for a connection, and what it looks up. `W` is the state of all that
is behind the calls. `ssiHandler` gets the index of the tag, and the buffer with its length.
`cgiHandler` gets the index, and the names and the values, and returns a URI. `memMalloc` tells
whether there is memory for a `struct http_ssi_state`. -/
structure Env (W : Type) where
  tcpWrite : W → List UInt8 → ErrT × W
  tcpSndbuf : W → UInt16
  tcpSndqueuelen : W → UInt16
  tcpMss : W → UInt16
  tcpClose : W → ErrT × W
  memMalloc : W → Bool × W
  fsRoot : List (List UInt8 × FsFile)
  cgiNames : List (List UInt8)
  cgiHandler : W → Nat → List (List UInt8 × Option (List UInt8)) → List UInt8 × W
  ssiHandler : W → Nat → Buffer (lwipHttpdMaxTagInsertLen + 1) → Nat →
    UInt16 × Buffer (lwipHttpdMaxTagInsertLen + 1) × W
  ppcTags : List (List UInt8)

abbrev SendAct := Act UInt8 (List UInt8)

def u16 (x : Int) : Nat := (x % 65536).toNat

def u32 (x : Int) : Nat := (x % 4294967296).toNat

section Code

variable {W : Type} (env : Env W)

/-! ## `http_write` -/

structure Written (W : Type) where
  err : ErrT
  len : Nat
  w : W
  acts : List SendAct

/-- How much is tried after ERR_MEM. -/
def lessToSend (w : W) (len : Nat) : Nat :=
  if env.tcpSndbuf w = 0 ∨ tcpSndQueuelen ≤ (env.tcpSndqueuelen w).toNat then 1 else len / 2

theorem lessToSend_lt {w : W} {len : Nat} (h : 1 < lessToSend env w len) :
    lessToSend env w len < len := by
  unfold lessToSend at h ⊢
  split at h
  · omega
  · rename_i hbuf
    rw [if_neg hbuf]
    omega

def httpWriteLoop (w : W) (ptr : List UInt8) (len : Nat) : Written W :=
  match env.tcpWrite w (ptr.take len) with
  | (.ok, w) => { err := .ok, len := len, w := w, acts := [.put (ptr.take len)] }
  | (.mem, w) =>
    if _h : 1 < lessToSend env w len then httpWriteLoop w ptr (lessToSend env w len)
    else { err := .mem, len := lessToSend env w len, w := w, acts := [] }
  | (e, w) => { err := e, len := len, w := w, acts := [] }
termination_by len
decreasing_by exact lessToSend_lt env _h

def httpWrite (w : W) (ptr : List UInt8) (length : Nat) : Written W :=
  if length = 0 then { err := .ok, len := 0, w := w, acts := [] }
  else httpWriteLoop env w ptr length

/-! ## `http_send_data_ssi` -/

inductive TagCheckState
  | none
  | leadin
  | found
  | leadout
  | sending
deriving DecidableEq, Repr

structure SsiState where
  parsed : Nat
  tagStarted : Nat
  tagEnd : Nat
  parseLeft : Nat
  tagIndex : Nat
  tagInsertLen : Nat
  tagNameLen : Nat
  tagName : Buffer (lwipHttpdMaxTagNameLen + 1)
  tagInsert : Buffer (lwipHttpdMaxTagInsertLen + 1)
  tagState : TagCheckState
deriving DecidableEq

/-- `<!--#` -/
def gPcTagLeadIn : List UInt8 := [0x3C, 0x21, 0x2D, 0x2D, 0x23]

/-- `-->` -/
def gPcTagLeadOut : List UInt8 := [0x2D, 0x2D, 0x3E]

def isSpace (c : UInt8) : Prop := c = 0x20 ∨ c = 0x09 ∨ c = 0x0A ∨ c = 0x0D

instance : DecidablePred isSpace := fun c =>
  inferInstanceAs (Decidable (c = 0x20 ∨ c = 0x09 ∨ c = 0x0A ∨ c = 0x0D))

/-- `<b>***UNKNOWN TAG ` -/
def unknownTag1Text : List UInt8 :=
  [0x3C, 0x62, 0x3E, 0x2A, 0x2A, 0x2A, 0x55, 0x4E, 0x4B, 0x4E, 0x4F, 0x57, 0x4E, 0x20, 0x54,
    0x41, 0x47, 0x20]

/-- `***</b>` -/
def unknownTag2Text : List UInt8 := [0x2A, 0x2A, 0x2A, 0x3C, 0x2F, 0x62, 0x3E]

def getTagInsert (w : W) (ssi : SsiState) : SsiState × W :=
  let name := read ssi.tagName 0
  match env.ppcTags.findIdx? (· = name) with
  | some loop =>
    let r := env.ssiHandler w loop ssi.tagInsert lwipHttpdMaxTagInsertLen
    ({ ssi with tagInsertLen := r.1.toNat, tagInsert := r.2.1 }, r.2.2)
  | none =>
    let len := min name.length (lwipHttpdMaxTagInsertLen - (18 + 7))
    let insert := (((ssi.tagInsert.write 0 unknownTag1Text).write 18 (name.take len)).write
      (18 + len) unknownTag2Text).setByte (18 + len + 7) 0
    ({ ssi with tagInsertLen := u16 (read insert 0).length, tagInsert := insert }, w)

/-- `hs->file`, `hs->left` and `*hs->ssi`, and the variables of the function. -/
structure Sending (W : Type) where
  w : W
  file : Nat
  left : Nat
  ssi : SsiState
  len : Nat
  err : ErrT
  dataToSend : Bool
  acts : List SendAct

/-- What is done after `http_write`, where `n` is how far `hs->file` goes on. -/
def Sending.wrote (s : Sending W) (r : Written W) (n : Nat) : Sending W :=
  if r.err = .ok then
    { s with
      w := r.w, err := .ok, len := n, file := s.file + n, left := u32 (s.left - n),
      dataToSend := true, acts := s.acts ++ r.acts }
  else { s with w := r.w, err := r.err, len := r.len }

variable (data : List UInt8)

def Sending.writeParsed (s : Sending W) : Sending W :=
  let all : Int := s.ssi.parsed - s.file
  let len := if ((env.tcpSndbuf s.w).toNat : Int) < all then (env.tcpSndbuf s.w).toNat else u16 all
  let len := if 2 * (env.tcpMss s.w).toNat < len then 2 * (env.tcpMss s.w).toNat else len
  let r := httpWrite env s.w (data.drop s.file) len
  s.wrote r r.len

/-- Sends what is before the tag. Once there is nothing of it, the tag counts as sent. -/
def Sending.writeBefore (s : Sending W) : Sending W :=
  let before : Int := s.ssi.tagStarted - s.file
  let len := if before < s.len then u16 before else s.len
  let r := httpWrite env s.w (data.drop s.file) len
  s.wrote r (if s.ssi.tagStarted ≤ s.file then u16 (r.len + (s.ssi.tagEnd - s.ssi.tagStarted : Int))
    else r.len)

def SsiState.next (ssi : SsiState) : SsiState :=
  { ssi with parsed := ssi.parsed + 1, parseLeft := ssi.parseLeft - 1 }

def Sending.tagNone (s : Sending W) : Sending W :=
  if byteAt data s.ssi.parsed = byteAt gPcTagLeadIn 0 then
    { s with
      ssi := { s.ssi with tagState := .leadin, tagIndex := 1, tagStarted := s.ssi.parsed }.next }
  else { s with ssi := s.ssi.next }

def Sending.tagLeadin (s : Sending W) : Sending W :=
  if s.ssi.tagIndex = gPcTagLeadIn.length then
    { s with ssi := { s.ssi with tagIndex := 0, tagState := .found } }
  else if byteAt data s.ssi.parsed = byteAt gPcTagLeadIn s.ssi.tagIndex then
    { s with ssi := { s.ssi with tagIndex := s.ssi.tagIndex + 1 }.next }
  else { s with ssi := { s.ssi with tagState := .none }.next }

def Sending.tagFound (s : Sending W) : Sending W :=
  let c := byteAt data s.ssi.parsed
  if s.ssi.tagIndex = 0 ∧ isSpace c then { s with ssi := s.ssi.next }
  else if c = byteAt gPcTagLeadOut 0 ∨ isSpace c then
    if s.ssi.tagIndex = 0 then { s with ssi := { s.ssi with tagState := .none }.next }
    else
      { s with
        ssi :=
          { s.ssi with
            tagState := .leadout, tagNameLen := s.ssi.tagIndex,
            tagName := s.ssi.tagName.setByte s.ssi.tagIndex 0,
            tagIndex := if c = byteAt gPcTagLeadOut 0 then 1 else 0 }.next }
  else if s.ssi.tagIndex < lwipHttpdMaxTagNameLen then
    { s with
      ssi :=
        { s.ssi with
          tagName := s.ssi.tagName.setByte s.ssi.tagIndex c, tagIndex := s.ssi.tagIndex + 1 }.next }
  else { s with ssi := { s.ssi with tagState := .none }.next }

/-- The tag is complete: its insert is fetched, and `parsed` goes back to where it began. -/
def Sending.tagComplete (s : Sending W) : Sending W :=
  let r := getTagInsert env s.w s.ssi
  { s with
    w := r.2,
    ssi :=
      { r.1 with
        tagIndex := 0, tagState := .sending, tagEnd := r.1.parsed, parsed := r.1.tagStarted },
    acts := s.acts ++
      [.ask (r.1.tagName.bytes.take r.1.tagNameLen) (r.1.tagInsert.bytes.take r.1.tagInsertLen)] }

def Sending.tagLeadout (s : Sending W) : Sending W :=
  let c := byteAt data s.ssi.parsed
  if s.ssi.tagIndex = 0 ∧ isSpace c then { s with ssi := s.ssi.next }
  else if c = byteAt gPcTagLeadOut s.ssi.tagIndex then
    if s.ssi.tagIndex = gPcTagLeadOut.length - 1 then
      let s := Sending.tagComplete env { s with ssi := s.ssi.next }
      if s.file < s.ssi.tagEnd then s.writeBefore env data else s
    else { s with ssi := { s.ssi with tagIndex := s.ssi.tagIndex + 1 }.next }
  else { s with ssi := { s.ssi with tagState := .none }.next }

def Sending.tagSending (s : Sending W) : Sending W :=
  if s.file < s.ssi.tagEnd then s.writeBefore env data
  else if s.ssi.tagIndex < s.ssi.tagInsertLen then
    let len := min s.len (s.ssi.tagInsertLen - s.ssi.tagIndex)
    let r := httpWrite env s.w (s.ssi.tagInsert.bytes.drop s.ssi.tagIndex) len
    if r.err = .ok then
      { s with
        w := r.w, err := .ok, len := r.len,
        ssi := { s.ssi with tagIndex := u16 (s.ssi.tagIndex + r.len) },
        dataToSend := true, acts := s.acts ++ r.acts }
    else { s with w := r.w, err := r.err, len := r.len }
  else { s with ssi := { s.ssi with tagIndex := 0, tagState := .none, parsed := s.ssi.tagEnd } }

def Sending.round (s : Sending W) : Sending W :=
  match s.ssi.tagState with
  | .none => s.tagNone data
  | .leadin => s.tagLeadin data
  | .found => s.tagFound data
  | .leadout => s.tagLeadout env data
  | .sending => s.tagSending env data

/-- The `while`, and the return at the top of its body. -/
def Sending.Goes (s : Sending W) : Prop := s.ssi.parseLeft ≠ 0 ∧ s.err = .ok ∧ s.len ≠ 0

instance : DecidablePred (Sending.Goes (W := W)) := fun s =>
  inferInstanceAs (Decidable (s.ssi.parseLeft ≠ 0 ∧ s.err = .ok ∧ s.len ≠ 0))

def Sending.rounds (s : Sending W) : Nat := data.length + 65540 * (s.ssi.parseLeft + 1)

/-- What is before the loop. The function may return here. -/
def Sending.enter (s : Sending W) : Sending W × Bool :=
  let s := { s with len := (env.tcpSndbuf s.w).toNat, err := .ok, dataToSend := false }
  if s.file < s.ssi.parsed then
    let s := s.writeParsed env data
    (s, env.tcpSndbuf s.w = 0)
  else (s, false)

def Sending.leave (s : Sending W) : Sending W :=
  if s.ssi.parseLeft ≠ 0 ∧ s.err = .ok then s
  else if s.ssi.tagState ≠ .sending ∧ s.file < s.ssi.parsed then s.writeParsed env data
  else s

def Sending.sendDataSsi (s : Sending W) : Option (Sending W) :=
  let r := s.enter env data
  if r.2 then some r.1
  else (While.loop Sending.Goes (Sending.round env data) (r.1.rounds data) r.1).map
    (Sending.leave env data)

end Code

end Lrndis.Http
