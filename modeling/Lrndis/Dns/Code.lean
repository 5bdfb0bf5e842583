import Lrndis.Lwip

/-!
# The DNS server

`dnserver.c`. The reply is the query with its header patched and one answer appended.
-/

namespace Lrndis.Dns

open Mem

def dnsMaxHostNameLen : Nat := 128

namespace DnsHeader

def size : Nat := 12

/-- `flags.qr`, the highest bit of the byte at 2 -/
def qr (m : List UInt8) : Bool := byteAt m 2 &&& 0x80 ≠ 0

/-- `ntohs(n_record[k])` -/
def nRecord (m : List UInt8) (k : Nat) : UInt16 := net16At m (4 + 2 * k)

end DnsHeader

structure DnsQuery where
  name : Buffer dnsMaxHostNameLen
  type : UInt16
  class_ : UInt16
deriving DecidableEq

def DnsQuery.zero : DnsQuery := { name := Buffer.zero _, type := 0, class_ := 0 }

/-! ## `parse_next_query` -/

/-- Where the loop over the labels stands: `data` from `ptr` on has `size` bytes to go,
and `name` holds `len` bytes. -/
structure Cursor where
  name : Buffer dnsMaxHostNameLen
  ptr : Nat
  size : Nat
  len : Nat
  lables : Nat

def Cursor.dot (c : Cursor) : Cursor :=
  if c.lables > 0 then { c with name := c.name.setByte c.len 0x2E, len := c.len + 1 } else c

/-- The loop. It ends with the cursor after the terminating zero byte, or with the code
of an error and with what is in `name` by then. -/
def parseLabels (data : List UInt8) (c : Cursor) :
    Except (Int × Buffer dnsMaxHostNameLen) Cursor :=
  if c.size = 0 then .error (-1, c.name)
  else
    let lableLen := (byteAt data c.ptr).toNat
    let ptr := c.ptr + 1
    let size := c.size - 1
    if lableLen = 0 then .ok { c with ptr := ptr, size := size }
    else if c.lables > 0 ∧ c.len = dnsMaxHostNameLen then .error (-2, c.name)
    else
      let d := c.dot
      if lableLen > size then .error (-1, d.name)
      else if d.len + lableLen ≥ dnsMaxHostNameLen then .error (-2, d.name)
      else
        parseLabels data {
          name := d.name.write d.len (slice data ptr lableLen)
          ptr := ptr + lableLen
          size := size - lableLen
          len := d.len + lableLen
          lables := c.lables + 1 }
termination_by c.size

def parseNextQuery (data : List UInt8) (size : Nat) (query : DnsQuery) : Int × DnsQuery :=
  match parseLabels data { name := query.name, ptr := 0, size := size, len := 0, lables := 0 } with
  | .error (e, name) => (e, { query with name := name })
  | .ok c =>
    if c.size < 4 then (-1, { query with name := c.name })
    else
      (((c.ptr + 4 : Nat) : Int),
        { name := c.name.setByte c.len 0
          type := word16At data c.ptr
          class_ := word16At data (c.ptr + 2) })

/-! ## The callback -/

def cString (b : Buffer dnsMaxHostNameLen) : List UInt8 := b.bytes.takeWhile (· ≠ 0)

/-- `dns_answer_t`, in network order but for the address, which `query_proc` gives so. -/
def dnsAnswer (addr : UInt32) : List UInt8 :=
  [0xC0, 0x0C] ++ [0, 1] ++ [0, 1] ++ [0, 0, 0, 32] ++ [0, 4] ++ bytes32 addr

def dnsAnswerSize : Nat := 16

def response (payload : List UInt8) (len : Nat) (addr : UInt32) : Buffer (len + dnsAnswerSize) :=
  let out := (Buffer.zero (len + dnsAnswerSize)).write 0 (payload.take len)
  let out := out.setByte 2 (out.byte 2 ||| 0x80)
  let out := out.write 6 [0, 1]
  out.write len (dnsAnswer addr)

/-- A datagram of `p->len` bytes, the port it came from, and whether `pbuf_alloc` has a
pbuf for the reply. -/
structure Datagram where
  payload : List UInt8
  port : UInt16
  alloc : Bool

/-- The static `query` is the state. -/
def udpRecvProc (queryProc : List UInt8 → Option UInt32) (query : DnsQuery) (d : Datagram) :
    DnsQuery × List LwipCall :=
  if d.payload.length ≤ DnsHeader.size then (query, [.free .arg])
  else if DnsHeader.qr d.payload then (query, [.free .arg])
  else if DnsHeader.nRecord d.payload 0 ≠ 1 then (query, [.free .arg])
  else
    let r := parseNextQuery (d.payload.drop DnsHeader.size)
      (d.payload.length - DnsHeader.size) query
    if r.1 < 0 then (r.2, [.free .arg])
    else
      match queryProc (cString r.2.name) with
      | none => (r.2, [.free .arg])
      | some addr =>
        let len := r.1.toNat + DnsHeader.size
        if d.alloc then
          (r.2, [.alloc (len + dnsAnswerSize) true,
            .sendto (response d.payload len addr).bytes d.port, .free .own, .free .arg])
        else (r.2, [.alloc (len + dnsAnswerSize) false, .free .arg])

end Lrndis.Dns
