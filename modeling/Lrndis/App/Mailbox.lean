import Lrndis.Lwip
import Lrndis.Protocol

/-!
# The receive mailbox of `app.c`

One slot: `on_packet` fills it from the interrupt, `usb_polling` empties it.
-/

namespace Lrndis.App

def receivedSize : Nat := rndisMtu + 14

structure Mailbox where
  received : Mem.Buffer receivedSize
  recvSize : UInt32
deriving DecidableEq

def Mailbox.boot : Mailbox := { received := Mem.Buffer.zero _, recvSize := 0 }

/-- `memcpy(received, data, size)` takes its size as unsigned. `none` is a copy that
runs past the end of `received`. -/
def onPacket (b : Mailbox) (data : List UInt8) (size : UInt32) : Option Mailbox :=
  if size.toNat ≤ receivedSize then
    some { received := b.received.write 0 (data.take size.toNat), recvSize := size }
  else none

theorem onPacket_isSome_iff (b : Mailbox) (data : List UInt8) (size : UInt32) :
    (onPacket b data size).isSome ↔ size.toNat ≤ receivedSize := by
  unfold onPacket
  split <;> simp_all

structure Frame where
  bytes : List UInt8
  fits : bytes.length ≤ receivedSize

theorem Frame.toNat_size (f : Frame) :
    (UInt32.ofNat f.bytes.length).toNat = f.bytes.length := by
  have hfits := f.fits
  have hsize : receivedSize = 1514 := rfl
  rw [UInt32.toNat_ofNat']
  omega

def Mailbox.packet (b : Mailbox) (f : Frame) : Mailbox :=
  (onPacket b f.bytes (UInt32.ofNat f.bytes.length)).get <| by
    rw [onPacket_isSome_iff, f.toNat_size]
    exact f.fits

theorem Mailbox.packet_eq (b : Mailbox) (f : Frame) :
    b.packet f = { received := b.received.write 0 f.bytes
                   recvSize := UInt32.ofNat f.bytes.length } := by
  unfold Mailbox.packet onPacket
  simp only [f.toNat_size, if_pos f.fits, List.take_length, Option.get_some]

/-- `alloc` says whether `pbuf_alloc` has a pbuf. The mailbox is emptied before the stack
gets the frame, and with interrupts off. -/
def usbPolling (b : Mailbox) (alloc : Bool) : Mailbox × List LwipCall :=
  if b.recvSize = 0 then (b, [])
  else
    let size := b.recvSize.toNat
    if alloc then
      ({ b with recvSize := 0 },
        [.alloc size true, .ethernetInput (b.received.bytes.take size), .free .own])
    else (b, [.alloc size false])

end Lrndis.App
