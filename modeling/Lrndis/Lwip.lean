import Lrndis.Lib.Buffer

/-!
# Calls into lwIP

What the handlers of the application do with the stack, in order. A handler deals with
at most two pbufs: the one it was given, and the one it allocated.
-/

namespace Lrndis

inductive Pbuf
  | arg
  | own
deriving DecidableEq, Repr

inductive LwipCall
  /-- `pbuf_alloc` for `own`, and whether it returned one -/
  | alloc (length : Nat) (ok : Bool)
  /-- `udp_sendto` of `own` to the broadcast address -/
  | sendto (payload : List UInt8) (port : UInt16)
  /-- `ethernet_input` of `own` -/
  | ethernetInput (payload : List UInt8)
  | free (p : Pbuf)
deriving DecidableEq, Repr

def datagrams (calls : List LwipCall) : List (List UInt8) :=
  calls.filterMap fun
    | .sendto payload _ => some payload
    | _ => none

@[simp] theorem datagrams_append (calls more : List LwipCall) :
    datagrams (calls ++ more) = datagrams calls ++ datagrams more :=
  List.filterMap_append

end Lrndis
