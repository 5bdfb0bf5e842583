import Mathlib.Logic.Function.Basic
import Lrndis.Lib.Linked

/-!
# `time.c`: software timers

The timers of a program are numbered. `data` is left out, and so is `proc`: what it does
is up to the program. The clock is `utime`, in microseconds, and the code cuts it to 32
bits wherever it keeps or compares it.
-/

namespace Lrndis.Time

def stmrActive : UInt32 := 1

structure Timer (n : Nat) where
  period : UInt32
  event : UInt32
  flags : UInt32
  next : Option (Fin n)

def Timer.Active {n : Nat} (t : Timer n) : Prop := t.flags &&& stmrActive ≠ 0

instance {n : Nat} (t : Timer n) : Decidable t.Active := by unfold Timer.Active; infer_instance

structure Timers (n : Nat) where
  timer : Fin n → Timer n
  stmrs : Option (Fin n)

section Functions

variable {n : Nat}

def Timers.set (s : Timers n) (tmr : Fin n) (t : Timer n) : Timers n :=
  { s with timer := Function.update s.timer tmr t }

def Timers.setNext (s : Timers n) (tmr : Fin n) (next : Option (Fin n)) : Timers n :=
  s.set tmr { s.timer tmr with next }

def stmrInit (s : Timers n) (tmr : Fin n) : Timers n :=
  { s.set tmr { period := 0, event := 0, flags := 0, next := s.stmrs } with stmrs := some tmr }

def stmrAdd (s : Timers n) (tmr : Fin n) : Timers n :=
  { s.setNext tmr s.stmrs with stmrs := some tmr }

def stmrFreeLoop (s : Timers n) (tmr : Fin n) : Nat → Fin n → Timers n
  | 0, _ => s
  | k + 1, t =>
    match (s.timer t).next with
    | none => s
    | some next =>
      if next = tmr then (s.setNext t (s.timer tmr).next).setNext tmr none
      else stmrFreeLoop s tmr k next

def stmrFree (s : Timers n) (tmr : Fin n) : Timers n :=
  match s.stmrs with
  | none => s
  | some head =>
    if tmr = head then { s.setNext tmr none with stmrs := (s.timer tmr).next }
    else stmrFreeLoop s tmr n head

def stmrStop (s : Timers n) (tmr : Fin n) : Timers n :=
  s.set tmr { s.timer tmr with flags := (s.timer tmr).flags &&& ~~~stmrActive }

def stmrRun (s : Timers n) (tmr : Fin n) (utime : Nat) : Timers n :=
  s.set tmr
    { s.timer tmr with
      flags := (s.timer tmr).flags ||| stmrActive
      event := UInt32.ofNat utime }

/-- The tests of the loop of `stmr`, with `time` the clock at the call. -/
def Timer.Due (t : Timer n) (time : UInt32) : Prop := ¬ time - t.event < t.period

instance (t : Timer n) (time : UInt32) : Decidable (t.Due time) := by
  unfold Timer.Due; infer_instance

end Functions

/-! ## The program around the timers -/

/-- Where `stmr` is. `time` is the whole reading of the clock, of which the code keeps the
lower 32 bits. -/
inductive Pc (n : Nat)
  | idle
  | loop (time : Nat) (tmr : Option (Fin n))
  | proc (time : Nat) (tmr : Option (Fin n)) (t : Fin n)
deriving DecidableEq

/-- What a program does with a timer; `period` writes the field. -/
inductive Call (n : Nat)
  | init (tmr : Fin n)
  | add (tmr : Fin n)
  | free (tmr : Fin n)
  | stop (tmr : Fin n)
  | run (tmr : Fin n)
  | period (tmr : Fin n) (us : UInt32)
deriving DecidableEq

inductive Input (n : Nat)
  | tick (us : Nat)
  | stmr
  /-- The loop of `stmr` runs once. -/
  | turn
  /-- The main program, or the `proc` that is running, does something with a timer. -/
  | call (c : Call n)
  | procReturns
deriving DecidableEq

/-- `setAt` is not in the program: it is the clock when `event` was last set after a firing
or by `stmr_run`. -/
structure Sys (n : Nat) where
  timers : Timers n
  pc : Pc n
  utime : Nat
  setAt : Fin n → Option Nat

section Steps

variable {n : Nat}

def Sys.boot (timer : Fin n → Timer n) (utime : Nat) : Sys n :=
  { timers := { timer, stmrs := none }, pc := .idle, utime, setAt := fun _ => none }

def Sys.call (s : Sys n) : Call n → Sys n
  | .init tmr =>
    { s with timers := stmrInit s.timers tmr, setAt := Function.update s.setAt tmr none }
  | .add tmr => { s with timers := stmrAdd s.timers tmr }
  | .free tmr => { s with timers := stmrFree s.timers tmr }
  | .stop tmr => { s with timers := stmrStop s.timers tmr }
  | .run tmr =>
    { s with
      timers := stmrRun s.timers tmr s.utime
      setAt := Function.update s.setAt tmr (some s.utime) }
  | .period tmr us => { s with timers := s.timers.set tmr { s.timers.timer tmr with period := us } }

/-- One turn of the loop of `stmr`, which ends at `t->proc(t)`. -/
def Sys.turn (s : Sys n) (time : Nat) : Option (Fin n) → Sys n × List (Fin n)
  | none => ({ s with pc := .idle }, [])
  | some t =>
    let tmr := (s.timers.timer t).next
    if ¬ (s.timers.timer t).Active then ({ s with pc := .loop time tmr }, [])
    else if ¬ (s.timers.timer t).Due (UInt32.ofNat time) then ({ s with pc := .loop time tmr }, [])
    else ({ s with pc := .proc time tmr t }, [t])

/-- `t->event = utime()`, when `proc` has returned. -/
def Sys.procReturns (s : Sys n) (time : Nat) (tmr : Option (Fin n)) (t : Fin n) : Sys n :=
  { s with
    timers := s.timers.set t { s.timers.timer t with event := UInt32.ofNat s.utime }
    pc := .loop time tmr
    setAt := Function.update s.setAt t (some s.utime) }

/-- What comes out are the timers whose `proc` is called. -/
def step (s : Sys n) : Input n → Sys n × List (Fin n)
  | .tick us => ({ s with utime := s.utime + us }, [])
  | .stmr =>
    match s.pc with
    | .idle => ({ s with pc := .loop s.utime s.timers.stmrs }, [])
    | _ => (s, [])
  | .turn =>
    match s.pc with
    | .loop time tmr => s.turn time tmr
    | _ => (s, [])
  | .call c =>
    match s.pc with
    | .loop _ _ => (s, [])
    | _ => (s.call c, [])
  | .procReturns =>
    match s.pc with
    | .proc time tmr t => (s.procReturns time tmr t, [])
    | _ => (s, [])

def Timers.next (s : Timers n) (t : Fin n) : Option (Fin n) := (s.timer t).next

def Sys.listed (s : Sys n) : List (Fin n) := Linked.follow s.timers.next n s.timers.stmrs

scoped instance decidableMem (t : Fin n) (l : List (Fin n)) : Decidable (t ∈ l) := inferInstance

/-- A timer is put into the list only while it is not in it. -/
def Legal (s : Sys n) : Input n → Prop
  | .call (.init tmr) => tmr ∉ s.listed
  | .call (.add tmr) => tmr ∉ s.listed
  | _ => True

instance (s : Sys n) (i : Input n) : Decidable (Legal s i) := by
  unfold Legal
  split <;> infer_instance

end Steps

end Lrndis.Time
