import Lrndis.Lib.CString

/-!
# `app.c`: `ctl_cgi_handler`, and where its parameters come from

`extract_uri_parameters` of `httpd.c` cuts the query string up in place. A pointer is an
index into the memory that the string is in, and NULL is `none`.
-/

namespace Lrndis.Cgi

open Mem CString

/-! ## `extract_uri_parameters` -/

def lwipHttpdMaxCgiParameters : Nat := 16

/-- Ends the pair at `pair`, at the next ampersand or, in the last one, at a space. What comes
out is where the next pair begins. -/
def cutPair {n : Nat} (m : Buffer n) (pair : Nat) : Buffer n × Option Nat :=
  match strchr m 0x26 pair with
  | some amp => (m.setByte amp 0, some (amp + 1))
  | none =>
    match strchr m 0x20 pair with
    | some space => (m.setByte space 0, none)
    | none => (m, none)

def cutValue {n : Nat} (m : Buffer n) (pair : Nat) : Buffer n × Option Nat :=
  match strchr m 0x3D pair with
  | some equals => (m.setByte equals 0, some (equals + 1))
  | none => (m, none)

def extractLoop {n : Nat} : Nat → Buffer n → Option Nat → Buffer n × List (Nat × Option Nat)
  | 0, m, _ => (m, [])
  | _, m, none => (m, [])
  | k + 1, m, some pair =>
    let cut := cutPair m pair
    let value := cutValue cut.1 pair
    let rest := extractLoop k value.1 cut.2
    (rest.1, (pair, value.2) :: rest.2)

/-- `max` is LWIP_HTTPD_MAX_CGI_PARAMETERS, which a build may set. -/
def extractUriParameters {n : Nat} (max : Nat) (m : Buffer n) (params : Option Nat) :
    Buffer n × List (Nat × Option Nat) :=
  match params with
  | none => (m, [])
  | some p => if m.byte p = 0 then (m, []) else extractLoop max m (some p)

/-! ## `ctl_cgi_handler` -/

structure Leds where
  g : Bool
  o : Bool
  r : Bool
deriving DecidableEq

inductive Led
  | green
  | orange
  | red
deriving DecidableEq

/-- `if (strcmp(params[i], name) == 0) led = *values[i] == '1'`, for one of the LEDs. It
fails where it dereferences NULL. -/
def assign {n : Nat} (m : Buffer n) (name : UInt8) (pair : Nat × Option Nat) (led : Bool) :
    Option Bool :=
  if read m pair.1 = [name] then pair.2.map fun value => m.byte value = 0x31 else some led

def ctlLoop {n : Nat} (m : Buffer n) : Leds → List (Nat × Option Nat) → Option Leds
  | leds, [] => some leds
  | leds, pair :: pairs =>
    (assign m 0x67 pair leds.g).bind fun g =>
    (assign m 0x6F pair leds.o).bind fun o =>
    (assign m 0x72 pair leds.r).bind fun r => ctlLoop m { g, o, r } pairs

/-- The variables, the calls of `STM_EVAL_LEDOn` and `STM_EVAL_LEDOff`, and the page. -/
def ctlCgiHandler {n : Nat} (m : Buffer n) (leds : Leds) (pairs : List (Nat × Option Nat)) :
    Option (Leds × List (Led × Bool) × String) :=
  (ctlLoop m leds pairs).map fun leds =>
    (leds, [(.green, leds.g), (.orange, leds.o), (.red, leds.r)], "/state.shtml")

end Lrndis.Cgi
