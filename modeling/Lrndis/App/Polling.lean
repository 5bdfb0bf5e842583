import Lrndis.App.Mailbox
import Lrndis.Lib.Run
import Lrndis.Lib.Slot

/-!
# `usb_polling`, interleaved with the USB interrupt

`on_packet` runs in the interrupt, between any two steps of the main program where
interrupts are enabled. So `usb_polling` is modelled by its program counter, and its copy
by single bytes.
-/

namespace Lrndis.Polling

open Mem App Run

inductive Pc
  | idle
  | disable
  | test
  | alloc
  /-- in `memcpy`, with `payload` copied so far -/
  | copying (payload : List UInt8)
  | clear (payload : List UInt8)
  /-- before `__enable_irq`, with a frame or without one -/
  | enable (frame : Option (List UInt8))
  | input (payload : List UInt8)
  | free
deriving DecidableEq

def Pc.irqEnabled : Pc → Bool
  | test | alloc | copying _ | clear _ | enable _ => false
  | _ => true

structure Sys where
  mailbox : Mailbox
  pc : Pc
deriving DecidableEq

def Sys.boot : Sys := { mailbox := .boot, pc := .idle }

/-- A frame as `handle_packet` gives it to `on_packet`, and not an empty one. -/
structure Packet extends Frame where
  pos : 1 ≤ bytes.length

inductive Input
  | poll
  /-- The main program takes its next step. `alloc` is whether `pbuf_alloc` has a pbuf. -/
  | main (alloc : Bool)
  /-- The USB interrupt, which waits while interrupts are disabled. -/
  | packet (f : Packet)

inductive Output
  | given (bytes : List UInt8)
  | taken (bytes : List UInt8)
  /-- `ethernet_input` gets a pbuf with these bytes, and with their number as its length. -/
  | ethernetInput (bytes : List UInt8)
deriving DecidableEq

def mainStep (s : Sys) (alloc : Bool) : Sys × List Output :=
  match s.pc with
  | .idle => (s, [])
  | .disable => ({ s with pc := .test }, [])
  | .test =>
    if s.mailbox.recvSize = 0 then ({ s with pc := .enable none }, [])
    else ({ s with pc := .alloc }, [])
  | .alloc =>
    if alloc then ({ s with pc := .copying [] }, []) else ({ s with pc := .enable none }, [])
  | .copying payload =>
    if payload.length < s.mailbox.recvSize.toNat then
      ({ s with pc := .copying (payload ++ [s.mailbox.received.byte payload.length]) }, [])
    else ({ s with pc := .clear payload }, [])
  | .clear payload =>
    ({ mailbox := { s.mailbox with recvSize := 0 }, pc := .enable (some payload) },
      [.taken payload])
  | .enable none => ({ s with pc := .idle }, [])
  | .enable (some payload) => ({ s with pc := .input payload }, [])
  | .input payload => ({ s with pc := .free }, [.ethernetInput payload])
  | .free => ({ s with pc := .idle }, [])

def step (s : Sys) : Input → Sys × List Output
  | .poll => if s.pc = .idle then ({ s with pc := .disable }, []) else (s, [])
  | .main alloc => mainStep s alloc
  | .packet f =>
    if s.pc.irqEnabled then
      ({ s with mailbox := s.mailbox.packet f.toFrame }, [.given f.bytes])
    else (s, [])

/-! ## The mailbox as a slot -/

def waiting (b : Mailbox) : Option (List UInt8) :=
  if b.recvSize = 0 then none else some (b.received.bytes.take b.recvSize.toNat)

def slotLog (out : List Output) : List (Slot.Event (List UInt8)) :=
  out.filterMap fun
    | .given bytes => some (.put bytes)
    | .taken bytes => some (.take bytes)
    | .ethernetInput _ => none

def given (out : List Output) : List (List UInt8) := Slot.puts (slotLog out)

def inputs (out : List Output) : List (List UInt8) :=
  out.filterMap fun
    | .ethernetInput bytes => some bytes
    | _ => none

@[simp] theorem slotLog_append (out more : List Output) :
    slotLog (out ++ more) = slotLog out ++ slotLog more := List.filterMap_append

@[simp] theorem inputs_append (out more : List Output) :
    inputs (out ++ more) = inputs out ++ inputs more := List.filterMap_append

def Pc.transit : Pc → List (List UInt8)
  | enable (some payload) | input payload => [payload]
  | _ => []

def Pc.Knows (b : Mailbox) : Pc → Prop
  | alloc => b.recvSize ≠ 0
  | copying payload => b.recvSize ≠ 0 ∧ payload.length ≤ b.recvSize.toNat ∧
      payload = b.received.bytes.take payload.length
  | clear payload => waiting b = some payload
  | _ => True

structure Inv (s : Sys) (out : List Output) : Prop where
  fits : s.mailbox.recvSize.toNat ≤ receivedSize
  knows : s.pc.Knows s.mailbox
  log : Slot.Log (slotLog out) (waiting s.mailbox)
  order : Slot.takes (slotLog out) = inputs out ++ s.pc.transit

theorem inv_boot : Inv Sys.boot [] := ⟨by decide, trivial, .nil, rfl⟩

/-! ## `on_packet` -/

theorem waiting_packet (b : Mailbox) (f : Packet) :
    waiting (b.packet f.toFrame) = some f.bytes := by
  have hsize := f.toFrame.toNat_size
  have hpos := f.pos
  have hne : UInt32.ofNat f.bytes.length ≠ 0 := by
    intro hzero
    rw [hzero, UInt32.toNat_zero] at hsize
    omega
  have hcopy := b.received.take_write 0 f.bytes (by rw [Nat.zero_add]; exact f.fits)
  rw [Nat.zero_add, List.take_zero, List.nil_append] at hcopy
  rw [Mailbox.packet_eq, waiting, if_neg hne]
  simp only [hsize, hcopy]

theorem inv_packet (s : Sys) (out : List Output) (f : Packet) (h : Inv s out) :
    Inv (step s (.packet f)).1 (out ++ (step s (.packet f)).2) := by
  unfold step
  simp only
  split
  · rename_i hirq
    have htakes : Slot.takes (slotLog (out ++ [.given f.bytes])) = Slot.takes (slotLog out) := by
      simp [slotLog, Slot.takes]
    have hinputs : inputs (out ++ [.given f.bytes]) = inputs out := by simp [inputs]
    refine ⟨?_, ?_, ?_, ?_⟩
    · rw [Mailbox.packet_eq]
      simp only [f.toFrame.toNat_size]
      exact f.fits
    · cases hpc : s.pc <;> simp [hpc, Pc.irqEnabled] at hirq <;> trivial
    · rw [slotLog_append]
      simp only [waiting_packet]
      exact h.log.put f.bytes
    · rw [htakes, hinputs]
      exact h.order
  · simpa using h

/-! ## The main program -/

theorem inv_move {s : Sys} {out : List Output} (h : Inv s out) (pc : Pc)
    (hknows : pc.Knows s.mailbox) (htransit : pc.transit = s.pc.transit) :
    Inv { s with pc := pc } (out ++ []) := by
  rw [List.append_nil]
  refine ⟨h.fits, hknows, h.log, ?_⟩
  rw [htransit]
  exact h.order

theorem copy_byte {b : Mailbox} (hfits : b.recvSize.toNat ≤ receivedSize) {payload : List UInt8}
    (hcopied : payload = b.received.bytes.take payload.length)
    (hlt : payload.length < b.recvSize.toNat) :
    payload ++ [b.received.byte payload.length] = b.received.bytes.take (payload.length + 1) := by
  have hin : payload.length < b.received.bytes.length := by
    rw [Buffer.length_bytes]
    omega
  rw [List.take_add_one, ← hcopied, List.getElem?_eq_getElem hin, Buffer.byte, byteAt,
    List.getD_eq_getElem?_getD, List.getElem?_eq_getElem hin]
  rfl

theorem inv_main (s : Sys) (out : List Output) (alloc : Bool) (h : Inv s out) :
    Inv (step s (.main alloc)).1 (out ++ (step s (.main alloc)).2) := by
  have hknows := h.knows
  have horder := h.order
  unfold step mainStep
  cases hpc : s.pc with
  | idle => simpa using h
  | disable => exact inv_move h .test trivial (by rw [hpc]; rfl)
  | test =>
    simp only
    split
    · exact inv_move h (.enable none) trivial (by rw [hpc]; rfl)
    · rename_i hne
      exact inv_move h .alloc hne (by rw [hpc]; rfl)
  | alloc =>
    rw [hpc] at hknows
    simp only
    split
    · exact inv_move h (.copying []) ⟨hknows, Nat.zero_le _, by simp⟩ (by rw [hpc]; rfl)
    · exact inv_move h (.enable none) trivial (by rw [hpc]; rfl)
  | copying payload =>
    rw [hpc] at hknows
    obtain ⟨hne, hle, hcopied⟩ := hknows
    simp only
    split
    · rename_i hlt
      have hbyte := copy_byte h.fits hcopied hlt
      apply inv_move h (.copying _) _ (by rw [hpc]; rfl)
      refine ⟨hne, ?_, ?_⟩
      · rw [List.length_append, List.length_singleton]
        omega
      · rw [List.length_append, List.length_singleton]
        exact hbyte
    · rename_i hge
      apply inv_move h (.clear payload) _ (by rw [hpc]; rfl)
      change waiting s.mailbox = some payload
      rw [waiting, if_neg hne, show s.mailbox.recvSize.toNat = payload.length by omega, ← hcopied]
  | clear payload =>
    rw [hpc] at hknows horder
    -- Here the frame is taken out of the mailbox.
    have hlog := h.log
    rw [show waiting s.mailbox = some payload from hknows] at hlog
    refine ⟨Nat.zero_le _, trivial, ?_, ?_⟩
    · rw [slotLog_append]
      exact hlog.take
    · rw [slotLog_append, Slot.takes_append, horder, inputs_append]
      simp [slotLog, Slot.takes, inputs, Pc.transit]
  | enable frame =>
    cases frame with
    | none => exact inv_move h .idle trivial (by rw [hpc]; rfl)
    | some payload => exact inv_move h (.input payload) trivial (by rw [hpc]; rfl)
  | input payload =>
    rw [hpc] at horder
    -- Here the stack gets it.
    refine ⟨h.fits, trivial, ?_, ?_⟩
    · rw [slotLog_append]
      simpa [slotLog] using h.log
    · rw [slotLog_append, Slot.takes_append, horder, inputs_append]
      simp [slotLog, Slot.takes, inputs, Pc.transit]
  | free => exact inv_move h .idle trivial (by rw [hpc]; rfl)

theorem inv_step (s : Sys) (out : List Output) (i : Input) (h : Inv s out) :
    Inv (step s i).1 (out ++ (step s i).2) := by
  cases i with
  | poll =>
    unfold step
    simp only
    split
    · rename_i hpc
      exact inv_move h .disable trivial (by rw [hpc]; rfl)
    · simpa using h
  | main alloc => exact inv_main s out alloc h
  | packet f => exact inv_packet s out f h

/-! ## One poll -/

def handed (calls : List LwipCall) : Option (List UInt8) :=
  calls.findSome? fun
    | .ethernetInput payload => some payload
    | _ => none

theorem run_copying (b : Mailbox) (hfits : b.recvSize.toNat ≤ receivedSize) (alloc : Bool)
    (left : Nat) (payload : List UInt8)
    (hcopied : payload = b.received.bytes.take payload.length)
    (hleft : payload.length + left = b.recvSize.toNat) :
    run step ⟨b, .copying payload⟩ (List.replicate (left + 1) (.main alloc)) =
      (⟨b, .clear (b.received.bytes.take b.recvSize.toNat)⟩, []) := by
  induction left generalizing payload with
  | zero =>
    have hstep : step ⟨b, .copying payload⟩ (.main alloc) = (⟨b, .clear payload⟩, []) := by
      unfold step mainStep
      simp only
      rw [if_neg (by omega)]
    rw [List.replicate_one, run_cons, hstep, ← hleft, Nat.add_zero, ← hcopied]
    rfl
  | succ left ih =>
    have hlt : payload.length < b.recvSize.toNat := by omega
    have hbyte := copy_byte hfits hcopied hlt
    have hstep : step ⟨b, .copying payload⟩ (.main alloc) =
        (⟨b, .copying (payload ++ [b.received.byte payload.length])⟩, []) := by
      unfold step mainStep
      simp only
      rw [if_pos hlt]
    rw [List.replicate_succ, run_cons, hstep, ih]
    · rfl
    · rw [List.length_append, List.length_singleton]
      exact hbyte
    · rw [List.length_append, List.length_singleton]
      omega

/-- Without the interrupt, the steps between `__disable_irq` and `__enable_irq` are
`usbPolling`. -/
theorem run_section (b : Mailbox) (hfits : b.recvSize.toNat ≤ receivedSize) (alloc : Bool) :
    ∃ k, run step ⟨b, .test⟩ (List.replicate k (.main alloc)) =
      (⟨(usbPolling b alloc).1, .enable (handed (usbPolling b alloc).2)⟩,
        (handed (usbPolling b alloc).2).toList.map .taken) := by
  by_cases hempty : b.recvSize = 0
  · refine ⟨1, ?_⟩
    simp [usbPolling, hempty, step, mainStep, handed]
  cases alloc with
  | false =>
    refine ⟨2, ?_⟩
    simp [List.replicate_succ, usbPolling, hempty, step, mainStep, handed]
  | true =>
    have hcopying := run_copying b hfits true b.recvSize.toNat [] (by simp) (by simp)
    refine ⟨2 + (b.recvSize.toNat + 1) + 1, ?_⟩
    rw [List.replicate_add, List.replicate_add, run_append, run_append]
    have htest : run step ⟨b, .test⟩ (List.replicate 2 (.main true)) = (⟨b, .copying []⟩, []) := by
      simp [List.replicate_succ, hempty, step, mainStep]
    rw [htest, hcopying]
    simp [usbPolling, hempty, step, mainStep, handed]

/-! ## Runs -/

/-- The stack gets some of the frames that `on_packet` was given, whole and in their order.
A frame is taken next, or the next frame comes before it is taken, or it is still in the
mailbox. A failed `pbuf_alloc` leaves the mailbox as it was. -/
theorem mailbox_delivers (is : List Input) :
    let s := (run step Sys.boot is).1
    let out := (run step Sys.boot is).2
    List.Sublist (inputs out) (given out) ∧
    Slot.takes (slotLog out) = inputs out ++ s.pc.transit ∧
    (∀ before after bytes, slotLog out = before ++ .take bytes :: after →
      ∃ earlier, before = earlier ++ [.put bytes]) ∧
    (∀ before after bytes, slotLog out = before ++ .put bytes :: after →
      (after = [] ∧ waiting s.mailbox = some bytes) ∨ (∃ rest, after = .take bytes :: rest) ∨
        ∃ next rest, after = .put next :: rest) ∧
    (s.pc = .alloc → (step s (.main false)).1.mailbox = s.mailbox ∧
      (step s (.main false)).2 = []) := by
  intro s out
  have hinv : Inv s out := history_run inv_step inv_boot is
  refine ⟨?_, hinv.order, ?_, ?_, ?_⟩
  · have htaken := hinv.log.sublist
    rw [hinv.order, List.append_assoc] at htaken
    exact (List.sublist_append_left _ _).trans htaken
  · intro before after bytes hlog
    exact hinv.log.take_own hlog
  · intro before after bytes hlog
    exact hinv.log.put_next hlog
  · intro hpc
    unfold step mainStep
    rw [hpc]
    exact ⟨rfl, rfl⟩

end Lrndis.Polling
