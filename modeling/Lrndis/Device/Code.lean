import Lrndis.Control.Transfers
import Lrndis.Receive.Proofs
import Lrndis.Transmit.Refinement

/-!
# The whole class driver

The three parts on one USB core, with `usbd_rndis_init` and `usbd_rndis_deinit`. The
outputs are those of the data path.
-/

namespace Lrndis.Device

open Mem Run

structure Dev where
  rx : Receive.Rx
  tx : Transmit.Tx
  ctl : Control.Sys
  mem : Nat → UInt8
  pending : Option Transmit.EpTx
  /-- The data OUT endpoint is open and prepared to receive. -/
  outArmed : Bool

def Dev.boot (mem : Nat → UInt8) : Dev where
  rx := Receive.Rx.boot
  tx := Transmit.Tx.boot
  ctl := Control.Sys.boot
  mem := mem
  pending := none
  outArmed := false

inductive Input
  | canSend
  | send (data : Nat) (size : Int)
  | complete (epnum : UInt8)
  | out (p : Receive.OutPacket)
  | setup (req : Control.SetupReq)
  | ep0Packet (bytes : List UInt8)
  | ep0Recv (around : UInt32 → UInt32)
  | poke (mem : Nat → UInt8)
  /-- A bus reset, or a disconnect: an outstanding transfer is gone. -/
  | reset
  | init
  | deinit

inductive Output
  | canSend (r : Bool)
  | sent (r : Bool)
  | transfer (bytes : List UInt8)
  | rxproc (size : UInt32) (data : List UInt8)
deriving DecidableEq

/-- `usbd_rndis_init`, as far as it matters to the data path: it opens the endpoints and
prepares the OUT endpoint. -/
def usbdRndisInit (d : Dev) : Dev := { d with outArmed := true }

/-- `usbd_rndis_deinit` closes the endpoints. -/
def usbdRndisDeinit (d : Dev) : Dev := { d with outArmed := false }

def busReset (d : Dev) : Dev := { d with pending := none, outArmed := false }

def issue (d : Dev) : Option Transmit.EpTx → Dev × List Output
  | none => (d, [])
  | some t => ({ d with pending := some t }, [.transfer (t.bytes d.mem d.tx.first)])

def control (d : Dev) (i : Control.Input) : Dev := { d with ctl := (Control.step d.ctl i).1 }

def step (d : Dev) : Input → Dev × List Output
  | .canSend => (d, [.canSend (Transmit.rndisCanSend d.tx)])
  | .send data size =>
    let r := Transmit.rndisSend d.mem d.tx data size
    let q := issue { d with tx := r.2.1 } r.2.2
    (q.1, .sent r.1 :: q.2)
  | .complete epnum =>
    if epnum &&& 0x0F = rndisDataInEp &&& 0x0F then
      match d.pending with
      | none => (d, [])
      | some _ =>
        let r := Transmit.usbdRndisDataIn d.mem d.tx epnum
        issue { d with tx := r.1, pending := none } r.2
    else
      let r := Transmit.usbdRndisDataIn d.mem d.tx epnum
      issue { d with tx := r.1 } r.2
  | .out p =>
    if d.outArmed then
      let r := Receive.step d.rx p
      ({ d with rx := r.1 }, r.2.map fun c => .rxproc c.size c.data)
    else (d, [])
  | .setup req => (control d (.setup req), [])
  | .ep0Packet bytes => (control d (.packet bytes), [])
  | .ep0Recv around => (control d (.rxReady d.rx.usbEthStat around), [])
  | .poke mem => ({ d with mem := mem }, [])
  | .reset => (busReset d, [])
  | .init => (usbdRndisInit d, [])
  | .deinit => (usbdRndisDeinit d, [])

end Lrndis.Device
