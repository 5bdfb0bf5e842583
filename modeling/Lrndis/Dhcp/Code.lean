import Mathlib.Data.Fintype.Basic
import Lrndis.Lwip

/-!
# The DHCP server

`dhserver.c`. The code reads the four bytes of an address only as one word, so an
address is the word. A pointer to an entry is its index.
-/

namespace Lrndis.Dhcp

open Mem

def dhcpDiscover : UInt8 := 1
def dhcpOffer : UInt8 := 2
def dhcpRequest : UInt8 := 3
def dhcpAck : UInt8 := 5

/-! ## Options -/

def dhcpSubnetmask : UInt8 := 1
def dhcpRouter : UInt8 := 3
def dhcpDnsserver : UInt8 := 6
def dhcpDnsdomain : UInt8 := 15
def dhcpIpaddress : UInt8 := 50
def dhcpLeasetime : UInt8 := 51
def dhcpServerid : UInt8 := 54
def dhcpEnd : UInt8 := 255

/-! ## `DHCP_TYPE` -/

namespace DhcpType

def size : Nat := 516

def op : Nat := 0
def htype : Nat := 1
def hlen : Nat := 2
def xid : Nat := 4
def secs : Nat := 8
def flags : Nat := 10
def yiaddr : Nat := 16
def giaddr : Nat := 24
def chaddr : Nat := 28
def magic : Nat := 236
def options : Nat := 240
def optionsSize : Nat := 275

end DhcpType

abbrev Mac := Buffer 6

def chaddr (data : List UInt8) : Mac := Buffer.read data DhcpType.chaddr 6

def options (data : List UInt8) : List UInt8 := slice data DhcpType.options DhcpType.optionsSize

def magicCookie : List UInt8 := [0x63, 0x82, 0x53, 0x63]

/-! ## The lease table -/

structure Entry where
  mac : Mac
  addr : UInt32
  subnet : UInt32
  lease : UInt32
deriving DecidableEq

/-- `dhcp_config_t`, less the entries and the port of the socket. Nothing checks the length of
the domain. -/
structure Config where
  addr : UInt32
  dns : UInt32
  domain : Option (List UInt8)

abbrev Table (n : Nat) := Fin n → Entry

variable {n : Nat}

def entryByIp (entries : Table n) (ip : UInt32) : Option (Fin n) :=
  (List.finRange n).find? fun i => (entries i).addr = ip

def entryByMac (entries : Table n) (mac : Mac) : Option (Fin n) :=
  (List.finRange n).find? fun i => (entries i).mac = mac

def isVacant (entry : Entry) : Bool := Buffer.zero 6 = entry.mac

def vacantAddress (entries : Table n) : Option (Fin n) :=
  (List.finRange n).find? fun i => isVacant (entries i)

def setMac (entries : Table n) (i : Fin n) (mac : Mac) : Table n :=
  Function.update entries i { entries i with mac := mac }

def freeEntry (entries : Table n) (i : Fin n) : Table n := setMac entries i (Buffer.zero 6)

/-! ## Reading and writing options -/

/-- The loop of `find_dhcp_option` from `i` on. The result is an index into `attrs`. -/
def findFrom (attrs : List UInt8) (size : Nat) (attr : UInt8) (i : Nat) : Option Nat :=
  if i + 1 < size then
    if i + (byteAt attrs (i + 1)).toNat + 2 > size then none
    else if byteAt attrs i = attr then some i
    else findFrom attrs size attr (i + (byteAt attrs (i + 1)).toNat + 2)
  else none
termination_by size - i

def findDhcpOption (attrs : List UInt8) (size : Nat) (attr : UInt8) : Option Nat :=
  findFrom attrs size attr 0

def fillOptions (msgType : UInt8) (domain : Option (List UInt8)) (dns leaseTime serverid router
    subnet : UInt32) : List UInt8 :=
  [53, 1, msgType] ++
  [dhcpServerid, 4] ++ bytes32 serverid ++
  [dhcpLeasetime, 4] ++ (bytes32 leaseTime).reverse ++
  [dhcpSubnetmask, 4] ++ bytes32 subnet ++
  (if router ≠ 0 then [dhcpRouter, 4] ++ bytes32 router else []) ++
  (match domain with
    | some d => [dhcpDnsdomain, UInt8.ofNat d.length] ++ d
    | none => []) ++
  (if dns ≠ 0 then [dhcpDnsserver, 4] ++ bytes32 dns else []) ++
  [dhcpEnd]

/-- The reply to a message, built in `dhcp_data` in place of it. Both branches of
`udp_recv_proc` do this, in different orders. With a domain of more than 239 bytes
`fill_options` writes behind `dp_options`; what goes beyond `dhcp_data` is cut off here. -/
def fillReply (data : Buffer DhcpType.size) (c : Config) (entry : Entry) (yiaddr : UInt32)
    (msgType : UInt8) : Buffer DhcpType.size :=
  let data := data.setByte DhcpType.op 2
  let data := data.setWord16 DhcpType.secs 0
  let data := data.setWord16 DhcpType.flags 0
  let data := data.setWord32 DhcpType.yiaddr yiaddr
  let data := data.write DhcpType.magic magicCookie
  let data := data.write DhcpType.options (List.replicate DhcpType.optionsSize 0)
  data.write DhcpType.options
    (fillOptions msgType c.domain c.dns entry.lease c.addr c.addr entry.subnet)

/-! ## The callback -/

structure Server (n : Nat) where
  dhcpData : Buffer DhcpType.size
  config : Config
  entries : Table n

/-- The first pbuf of a datagram, with `p->len` bytes (`p->next` and `p->tot_len` are not looked
at), the port it came from, and whether `pbuf_alloc` has a pbuf for the reply. -/
structure Datagram where
  payload : List UInt8
  port : UInt16
  alloc : Bool

def handleDiscover (s : Server n) (d : Datagram) : Server n × List LwipCall :=
  match (entryByMac s.entries (chaddr s.dhcpData.bytes)).or (vacantAddress s.entries) with
  | none => (s, [])
  | some i =>
    let entry := s.entries i
    let data := fillReply s.dhcpData s.config entry entry.addr dhcpOffer
    if d.alloc then
      ({ s with dhcpData := data },
        [.alloc DhcpType.size true, .sendto data.bytes d.port, .free .own])
    else ({ s with dhcpData := data }, [.alloc DhcpType.size false])

def requestedAddr (data : List UInt8) : Option UInt32 :=
  match findDhcpOption (options data) DhcpType.optionsSize dhcpIpaddress with
  | none => none
  | some ptr =>
    if byteAt (options data) (ptr + 1) ≠ 4 then none
    else some (word32At (options data) (ptr + 2))

/-- The client's entry is free again, whatever comes of its request. -/
def freeClient (entries : Table n) (mac : Mac) : Table n :=
  match entryByMac entries mac with
  | some i => freeEntry entries i
  | none => entries

def handleRequest (s : Server n) (d : Datagram) : Server n × List LwipCall :=
  match requestedAddr s.dhcpData.bytes with
  | none => (s, [])
  | some ip =>
    let s := { s with entries := freeClient s.entries (chaddr s.dhcpData.bytes) }
    match entryByIp s.entries ip with
    | none => (s, [])
    | some i =>
      let entry := s.entries i
      if ¬ isVacant entry then (s, [])
      else
        let data := fillReply s.dhcpData s.config entry ip dhcpAck
        if d.alloc then
          ({ s with dhcpData := data, entries := setMac s.entries i (chaddr data.bytes) },
            [.alloc DhcpType.size true, .sendto data.bytes d.port, .free .own])
        else ({ s with dhcpData := data }, [.alloc DhcpType.size false])

def received (s : Server n) (d : Datagram) : Server n :=
  { s with dhcpData := s.dhcpData.write 0 (d.payload.take DhcpType.size) }

def messageType (data : List UInt8) : UInt8 := byteAt (options data) 2

def udpRecvProc (s : Server n) (d : Datagram) : Server n × List LwipCall :=
  let s := received s d
  let r :=
    if messageType s.dhcpData.bytes = dhcpDiscover then handleDiscover s d
    else if messageType s.dhcpData.bytes = dhcpRequest then handleRequest s d
    else (s, [])
  (r.1, r.2 ++ [.free .arg])

end Lrndis.Dhcp
