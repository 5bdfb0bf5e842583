import Lrndis.Lib.Run
import Lrndis.Transmit.Refinement

/-!
# `linkoutput_fn` of `app.c`, interleaved with the USB interrupts

The stack gives a chain of buffers. They are copied into one static array, and the
transmitter keeps a pointer to it. The controller reads the array packet by packet
while the transfer lasts, so the function is modelled by its program counter, and a
copy by its single stores.
-/

namespace Lrndis.Link

open Mem Transmit

abbrev Chain := List (List UInt8)

inductive Err
  | ok
  | arg
  | use
deriving DecidableEq, Repr

inductive Pc
  | idle
  /-- in the loop of 200 waits -/
  | wait (p : Chain) (i : Nat)
  /-- at the head of the copy loop, with the pbufs from `q` on to do -/
  | next (p q : Chain) (size : Nat)
  /-- in `memcpy`, with `bytes` to store from `data + pos` on -/
  | copying (p q : Chain) (bytes : List UInt8) (pos : Nat)
  | check (p : Chain) (size : Nat)
  | send (p : Chain) (size : Nat)
  /-- after that test, before interrupts are disabled -/
  | enter (p : Chain) (size : Nat)
deriving DecidableEq

def dataSize : Nat := rndisMtu + 14 + 4

structure Sys where
  tx : Tx
  data : Buffer dataSize
  pc : Pc
  /-- The transfer on the data IN endpoint, and how many of its bytes are read. -/
  pending : Option (EpTx × Nat)
deriving DecidableEq

def Sys.boot : Sys where
  tx := Tx.boot
  data := Buffer.zero _
  pc := .idle
  pending := none

/-- The memory as the controller sees it: `data` is at address 0. -/
def Sys.mem (s : Sys) : Nat → UInt8 := s.data.byte

inductive Input
  | linkoutput (p : Chain)
  | main
  /-- The host polls, and the controller reads one packet. -/
  | read
  | complete (epnum : UInt8)

inductive Output
  | returned (p : Chain) (err : Err)
  | packet (bytes : List UInt8)
deriving DecidableEq

/-- `DCD_EP_Tx` on the data endpoint. -/
def issue (s : Sys) : Option EpTx → Sys
  | none => s
  | some t => { s with pending := some (t, 0) }

def mainStep (s : Sys) : Sys × List Output :=
  match s.pc with
  | .idle => (s, [])
  | .wait p i =>
    if i < 200 ∧ ¬ rndisCanSend s.tx then ({ s with pc := .wait p (i + 1) }, [])
    else ({ s with pc := .next p p 0 }, [])
  | .next p [] size => ({ s with pc := .check p size }, [])
  | .next p (payload :: q) size =>
    if size + payload.length > rndisMtu + 14 then
      ({ s with pc := .idle }, [.returned p .arg])
    else ({ s with pc := .copying p q payload size }, [])
  | .copying p q [] pos => ({ s with pc := .next p q pos }, [])
  | .copying p q (b :: bytes) pos =>
    ({ s with data := s.data.setByte pos b, pc := .copying p q bytes (pos + 1) }, [])
  | .check p size =>
    if rndisCanSend s.tx then ({ s with pc := .send p size }, [])
    else ({ s with pc := .idle }, [.returned p .use])
  | .send p size =>
    -- The result of `rndis_send` is not looked at.
    if accepts s.tx size then ({ s with pc := .enter p size }, [])
    else ({ s with pc := .idle }, [.returned p .ok])
  | .enter p size =>
    let r := start s.mem s.tx 0 size
    (issue { s with tx := r.1, pc := .idle } r.2, [.returned p .ok])

def unread (s : Sys) (t : EpTx) (n : Nat) : List UInt8 := (t.bytes s.mem s.tx.first).drop n

def step (s : Sys) : Input → Sys × List Output
  | .linkoutput p => if s.pc = .idle then ({ s with pc := .wait p 0 }, []) else (s, [])
  | .main => mainStep s
  | .read =>
    match s.pending with
    | none => (s, [])
    | some (t, n) =>
      let packet := (unread s t n).take rndisDataInSz
      if packet = [] then (s, [])
      else ({ s with pending := some (t, n + packet.length) }, [.packet packet])
  | .complete epnum =>
    if epnum &&& 0x0F = rndisDataInEp &&& 0x0F then
      match s.pending with
      | none => (s, [])
      | some (t, n) =>
        if unread s t n = [] then
          let r := usbdRndisDataIn s.mem s.tx epnum
          (issue { s with tx := r.1, pending := none } r.2, [])
        else (s, [])
    else
      let r := usbdRndisDataIn s.mem s.tx epnum
      (issue { s with tx := r.1 } r.2, [])

/-! ## What the host and the stack see -/

def sent (out : List Output) : List (List UInt8) :=
  out.filterMap fun
    | .returned p .ok => some p.flatten
    | _ => none

def stream (out : List Output) : List (List UInt8) :=
  out.filterMap fun
    | .packet b => some b
    | _ => none

@[simp] theorem sent_append (out more : List Output) : sent (out ++ more) = sent out ++ sent more :=
  List.filterMap_append

@[simp] theorem stream_append (out more : List Output) :
    stream (out ++ more) = stream out ++ stream more :=
  List.filterMap_append

/-- The host has the messages of the calls that returned `ERR_OK`, in order. Of the last
one it may have a part, and then the bytes of its frame are still in `data`. -/
structure Delivers (s : Sys) (out : List Output) : Prop where
  described : ∀ f ∈ sent out, Described (message f) f ∧
    (message f).length % rndisDataInSz ≠ 0
  done : s.tx.state = .ready → stream out = (sent out).flatMap packets
  partway : s.tx.state ≠ .ready → ∃ before last sofar, sent out = before ++ [last] ∧
    stream out = before.flatMap packets ++ sofar ∧ sofar <+: packets last ∧
    s.data.bytes.take last.length = last

end Lrndis.Link
