import Mathlib.Algebra.Group.Int.Defs
import Mathlib.Algebra.Group.Nat.Defs
import Lrndis.Lib.Run

/-!
# `time.c`: `utime` and `SysTick_Handler`

The counter goes on between any two accesses of `utime`, and a reload interrupts it. The
interrupt comes before the next access, but not always at once.
-/

namespace Lrndis.SysTick

/-- A whole number of megahertz that `SystemCoreClock` can hold. `system_stm32f4xx.c` says
144, and 168 is what the chip can do. -/
structure CoreClock where
  mhz : Nat
  pos : 0 < mhz
  fits : mhz * 1000000 < 2 ^ 32

namespace CoreClock

variable (c : CoreClock)

def systemCoreClock : UInt32 := .ofNat (c.mhz * 1000000)

/-- What `time_init` has the counter reloaded with: `SysTick_Config` takes the ticks of a
period, and the counter needs one for the zero. -/
def load : UInt32 := c.systemCoreClock / 1000 - 1

def ticksPerUs : UInt32 := c.systemCoreClock / 1000000

end CoreClock

inductive Word
  | low
  | high
deriving DecidableEq

def Word.other : Word → Word
  | .low => .high
  | .high => .low

def Word.of (a : Int) : Word → Int
  | .low => a % 2 ^ 32
  | .high => a / 2 ^ 32 * 2 ^ 32

/-- The next access of `utime`, and what it has in its registers. -/
inductive Pc
  | idle
  | ctrl
  | val
  | first (ticks : UInt32)
  | second (ticks : UInt32) (word : Int)
  | check (ticks : UInt32)
deriving DecidableEq

inductive Input
  | tick
  /-- `SysTick_Handler`, if its interrupt is pending -/
  | handler
  | call
  | access
deriving DecidableEq

/-- `res` is static. -/
structure State (c : CoreClock) where
  val : Nat
  val_le : val ≤ c.load.toNat
  countflag : Bool
  pending : Bool
  usAddition : Int
  res : Int
  pc : Pc

def int64Max : Int := 2 ^ 63 - 1

section Steps

variable {c : CoreClock}

def State.boot (c : CoreClock) : State c :=
  { val := 0, val_le := Nat.zero_le _, countflag := false, pending := false, usAddition := 0,
    res := 0, pc := .idle }

def State.tick (s : State c) : State c :=
  if s.val = 0 then
    { s with val := c.load.toNat, val_le := Nat.le_refl _, countflag := true, pending := true }
  else { s with val := s.val - 1, val_le := Nat.le_trans (Nat.sub_le ..) s.val_le }

/-- `res + (1000 - ticks / ticksPerUs)`: the difference is unsigned. -/
def microseconds (c : CoreClock) (res : Int) (ticks : UInt32) : Int :=
  res + ((1000 - ticks / c.ticksPerUs).toNat : Int)

/-- One access. `word` is the word of `usAddition` that is read first. The overflow of `res`
is undefined, and no run goes past it. -/
def State.access (word : Word) (s : State c) : State c × List Int :=
  match s.pc with
  | .idle => (s, [])
  | .ctrl => ({ s with countflag := false, pc := .val }, [])
  | .val => ({ s with pc := .first (UInt32.ofNat s.val) }, [])
  | .first ticks => ({ s with pc := .second ticks (word.of s.usAddition) }, [])
  | .second ticks first =>
    ({ s with res := first + word.other.of s.usAddition, pc := .check ticks }, [])
  | .check ticks =>
    if s.countflag then ({ s with countflag := false, pc := .val }, [])
    else
      let res := microseconds c s.res ticks
      if res ≤ int64Max then ({ s with res := res, pc := .idle }, [res]) else (s, [])

/-- What comes out are the results of `utime`. The overflow of `usAddition` is undefined,
and no run goes past it. -/
def step (word : Word) (s : State c) : Input → State c × List Int
  | .tick => (s.tick, [])
  | .handler =>
    if s.pending ∧ s.usAddition + 1000 ≤ int64Max then
      ({ s with usAddition := s.usAddition + 1000, pending := false }, [])
    else (s, [])
  | .call =>
    if s.pending then (s, [])
    else
      match s.pc with
      | .idle => ({ s with pc := .ctrl }, [])
      | _ => (s, [])
  | .access => if s.pending then (s, []) else s.access word

/-- The time that the registers and `usAddition` give at one instant. -/
def State.clock (s : State c) : Int := s.usAddition + 1000 - ((s.val / c.mhz : Nat) : Int)

end Steps

end Lrndis.SysTick
