import Lrndis.Dhcp.Format
import Lrndis.Dhcp.Proofs
import Lrndis.Dhcp.Options

/-!
# What the replies say

`fill_options` writes options one after another, and `find_dhcp_option` finds them again:
behind them there is only the end and zeros.
-/

namespace Lrndis.Dhcp

open Mem Tlv

variable {n : Nat}

/-! ## The options as a list -/

def replyOptions (msgType : UInt8) (c : Config) (entry : Entry) : List (UInt8 × List UInt8) :=
  [(dhcpMessagetype, [msgType]), (dhcpServerid, bytes32 c.addr),
    (dhcpLeasetime, (bytes32 entry.lease).reverse), (dhcpSubnetmask, bytes32 entry.subnet)] ++
  (if c.addr ≠ 0 then [(dhcpRouter, bytes32 c.addr)] else []) ++
  (c.domain.map fun d => (dhcpDnsdomain, d)).toList ++
  (if c.dns ≠ 0 then [(dhcpDnsserver, bytes32 c.dns)] else [])

def optionBytes (msgType : UInt8) (c : Config) (entry : Entry) : List UInt8 :=
  fillOptions msgType c.domain c.dns entry.lease c.addr c.addr entry.subnet

theorem optionBytes_eq (msgType : UInt8) (c : Config) (entry : Entry) :
    optionBytes msgType c entry = encode (replyOptions msgType c entry) ++ [dhcpEnd] := by
  unfold optionBytes fillOptions replyOptions
  by_cases hrouter : c.addr = 0 <;> by_cases hdns : c.dns = 0 <;> cases hdomain : c.domain <;>
    simp [hrouter, hdns, dhcpMessagetype]

/-- The domain is no longer than the options have room for. -/
def Fits (c : Config) : Prop := ∀ d ∈ c.domain, d.length ≤ 239

instance (c : Config) : Decidable (Fits c) := by unfold Fits; infer_instance

theorem optionBytes_length (msgType : UInt8) (c : Config) (entry : Entry) (h : Fits c) :
    (optionBytes msgType c entry).length ≤ DhcpType.optionsSize := by
  have hdomain : ∀ d, c.domain = some d → d.length ≤ 239 := h
  have hword : ∀ (p : Prop) [Decidable p] (code : UInt8) (v : UInt32),
      (if p then [code, 4] ++ bytes32 v else []).length ≤ 6 := by
    intro p _ code v
    split <;> simp
  have hrouter := hword (c.addr ≠ 0) dhcpRouter c.addr
  have hdns := hword (c.dns ≠ 0) dhcpDnsserver c.dns
  unfold optionBytes fillOptions DhcpType.optionsSize
  simp only [List.length_append]
  cases hd : c.domain with
  | none =>
    simp only [List.length_cons, List.length_nil, List.length_reverse, bytes32_length] at hrouter hdns ⊢
    omega
  | some d =>
    have hlen := hdomain d hd
    simp only [List.length_append, List.length_cons, List.length_nil, List.length_reverse,
      bytes32_length] at hrouter hdns ⊢
    omega

/-! ## The options of a reply -/

theorem options_fillReply (data : Buffer DhcpType.size) (c : Config) (entry : Entry)
    (ip : UInt32) (msgType : UInt8) (h : Fits c) :
    options (fillReply data c entry ip msgType).bytes =
      encode (replyOptions msgType c entry) ++ (dhcpEnd ::
        List.replicate (DhcpType.optionsSize - (optionBytes msgType c entry).length) 0) := by
  have hlen := optionBytes_length msgType c entry h
  calc options (fillReply data c entry ip msgType).bytes
      = optionBytes msgType c entry ++
          List.replicate (DhcpType.optionsSize - (optionBytes msgType c entry).length) 0 :=
        Buffer.slice_cleared _ _ _ _ (by decide) hlen
    _ = _ := by
      rw [optionBytes_eq, List.append_assoc]
      rfl

def optionValue (data : List UInt8) (code : UInt8) : Option (List UInt8) :=
  (findDhcpOption (options data) DhcpType.optionsSize code).map (value (options data))

theorem replyOptions_short {msgType : UInt8} {c : Config} {entry : Entry} (h : Fits c)
    {o : UInt8 × List UInt8} (ho : o ∈ replyOptions msgType c entry) : o.2.length < 256 := by
  unfold replyOptions at ho
  simp only [List.mem_append] at ho
  rcases ho with ((ho | ho) | ho) | ho
  · simp only [List.mem_cons, List.not_mem_nil, or_false] at ho
    rcases ho with rfl | rfl | rfl | rfl <;> simp
  · split at ho
    · obtain rfl := List.mem_singleton.mp ho
      simp
    · cases ho
  · obtain ⟨d, hd, rfl⟩ := Option.map_eq_some_iff.mp (Option.mem_toList.mp ho)
    exact Nat.lt_of_le_of_lt (h d hd) (by decide)
  · split at ho
    · obtain rfl := List.mem_singleton.mp ho
      simp
    · cases ho

theorem optionValue_fillReply (data : Buffer DhcpType.size) (c : Config) (entry : Entry)
    (ip : UInt32) (msgType code : UInt8) (h : Fits c) (hpad : code ≠ dhcpPad)
    (hend : code ≠ dhcpEnd) :
    optionValue (fillReply data c entry ip msgType).bytes code =
      ((replyOptions msgType c entry).find? fun o => o.1 = code).map Prod.snd := by
  have hlen := optionBytes_length msgType c entry h
  rw [optionBytes_eq, List.length_append] at hlen
  unfold optionValue
  rw [findDhcpOption_eq, options_fillReply data c entry ip msgType h]
  apply find_encode _ (fun o ho => replyOptions_short h ho) (fun _ _ => ⟨rfl, rfl⟩) (by omega)
  intro p hp
  rw [byteAt_append_right _ _ _ hp]
  generalize DhcpType.optionsSize - (optionBytes msgType c entry).length = room
  cases p - (encode (replyOptions msgType c entry)).length with
  | zero => exact Ne.symm hend
  | succ k =>
    show byteAt (List.replicate room 0) k ≠ code
    rw [byteAt_zeros]
    exact Ne.symm hpad

/-! ## The whole reply -/

/-- The reply says what the server is configured to say for the entry, and has the client's
fields as the request had them. An address stands in memory as the word that it is here,
and the lease in network order. -/
structure Configured (reply request : List UInt8) (c : Config) (entry : Entry)
    (msgType : UInt8) : Prop where
  messagetype : optionValue reply dhcpMessagetype = some [msgType]
  serverid : optionValue reply dhcpServerid = some (bytes32 c.addr)
  leasetime : optionValue reply dhcpLeasetime = some (bytes32 entry.lease).reverse
  subnetmask : optionValue reply dhcpSubnetmask = some (bytes32 entry.subnet)
  router : optionValue reply dhcpRouter = if c.addr ≠ 0 then some (bytes32 c.addr) else none
  dnsdomain : optionValue reply dhcpDnsdomain = c.domain
  dnsserver : optionValue reply dhcpDnsserver = if c.dns ≠ 0 then some (bytes32 c.dns) else none
  op : byteAt reply DhcpType.op = 2
  magic : slice reply DhcpType.magic 4 = magicCookie
  yiaddr : word32At reply DhcpType.yiaddr = entry.addr
  htype : byteAt reply DhcpType.htype = byteAt request DhcpType.htype
  hlen : byteAt reply DhcpType.hlen = byteAt request DhcpType.hlen
  xid : slice reply DhcpType.xid 4 = slice request DhcpType.xid 4
  giaddr : slice reply DhcpType.giaddr 4 = slice request DhcpType.giaddr 4
  chaddr : slice reply DhcpType.chaddr 16 = slice request DhcpType.chaddr 16

section Fields

variable (data : Buffer DhcpType.size) (c : Config) (entry : Entry) (ip : UInt32) (msgType : UInt8)

theorem fillReply_op : (fillReply data c entry ip msgType).byte DhcpType.op = 2 := by
  have hcookie : magicCookie.length = 4 := rfl
  unfold fillReply Buffer.setWord32 Buffer.setWord16
  unfold DhcpType.secs DhcpType.flags DhcpType.yiaddr DhcpType.magic DhcpType.options DhcpType.op
  simp only
  rw [Buffer.byte_write_outside _ _ _ _ (by omega), Buffer.byte_write_outside _ _ _ _ (by omega),
    Buffer.byte_write_outside _ _ _ _ (by omega), Buffer.byte_write_outside _ _ _ _ (by omega),
    Buffer.byte_write_outside _ _ _ _ (by omega), Buffer.byte_write_outside _ _ _ _ (by omega)]
  exact Buffer.byte_write_inside _ _ _ _ (by decide) (by omega) (by simp)

theorem fillReply_magic :
    slice (fillReply data c entry ip msgType).bytes DhcpType.magic 4 = magicCookie := by
  have hcookie : magicCookie.length = 4 := rfl
  unfold fillReply
  simp only
  generalize (((data.setByte DhcpType.op 2).setWord16 DhcpType.secs 0).setWord16 DhcpType.flags
    0).setWord32 DhcpType.yiaddr ip = b
  refine Eq.trans ?_ (b.slice_write_same DhcpType.magic magicCookie (by decide))
  unfold DhcpType.magic DhcpType.options
  apply slice_congr
  · rw [Buffer.length_bytes]
    decide
  · rw [Buffer.length_bytes]
    decide
  · intro i hi
    exact (Buffer.byte_write_outside _ _ _ _ (by omega)).trans
      (Buffer.byte_write_outside _ _ _ _ (by omega))

theorem fillReply_slice (off k : Nat) (h : 1 ≤ off ∧ off + k ≤ 8 ∨ 20 ≤ off ∧ off + k ≤ 236) :
    slice (fillReply data c entry ip msgType).bytes off k = slice data.bytes off k := by
  have hsize : DhcpType.size = 516 := rfl
  apply slice_congr
  · rw [Buffer.length_bytes]
    omega
  · rw [Buffer.length_bytes]
    omega
  · intro i hi
    exact fillReply_frame data c entry ip msgType (off + i) (by omega) (Or.inl (by omega))

end Fields

theorem fillReply_configured (data : Buffer DhcpType.size) (c : Config) (entry : Entry)
    (msgType : UInt8) (h : Fits c) :
    Configured (fillReply data c entry entry.addr msgType).bytes data.bytes c entry msgType := by
  have hoption : ∀ code, code ≠ dhcpPad → code ≠ dhcpEnd →
      optionValue (fillReply data c entry entry.addr msgType).bytes code =
        ((replyOptions msgType c entry).find? fun o => o.1 = code).map Prod.snd := fun code =>
    optionValue_fillReply data c entry entry.addr msgType code h
  constructor
  case op => exact fillReply_op data c entry entry.addr msgType
  case magic => exact fillReply_magic data c entry entry.addr msgType
  case yiaddr => exact fillReply_yiaddr data c entry entry.addr msgType
  case htype =>
    exact fillReply_frame data c entry entry.addr msgType 1 (by decide) (Or.inl (by decide))
  case hlen =>
    exact fillReply_frame data c entry entry.addr msgType 2 (by decide) (Or.inl (by decide))
  case xid => exact fillReply_slice data c entry entry.addr msgType 4 4 (by decide)
  case giaddr => exact fillReply_slice data c entry entry.addr msgType 24 4 (by decide)
  case chaddr => exact fillReply_slice data c entry entry.addr msgType 28 16 (by decide)
  all_goals
    rw [hoption _ (by decide) (by decide)]
    unfold replyOptions
    by_cases hrouter : c.addr = 0 <;> by_cases hdns : c.dns = 0 <;> cases hdomain : c.domain <;>
      simp [hrouter, hdns, dhcpMessagetype, dhcpServerid, dhcpLeasetime,
        dhcpSubnetmask, dhcpRouter, dhcpDnsdomain, dhcpDnsserver]

theorem fillReply_congr (data : Buffer DhcpType.size) (c : Config) {e e' : Entry} (ip : UInt32)
    (msgType : UInt8) (hlease : e.lease = e'.lease) (hsubnet : e.subnet = e'.subnet) :
    fillReply data c e ip msgType = fillReply data c e' ip msgType := by
  unfold fillReply
  rw [hlease, hsubnet]

theorem reply_filled {s : Server n} {d : Datagram} {reply : List UInt8}
    (h : reply ∈ datagrams (udpRecvProc s d).2) :
    ∃ i msgType, (msgType = dhcpOffer ∨ msgType = dhcpAck) ∧
      reply = (fillReply (received s d).dhcpData s.config (s.entries i) (s.entries i).addr
        msgType).bytes := by
  rcases eq_or_ne (typeOf s d) dhcpDiscover with h1 | h1
  · rw [(step_discover s d h1).2] at h
    rcases (discover_cases (received s d) d).2 with hno | ⟨i, -, hreply⟩
    · rw [hno] at h
      cases h
    · rw [hreply, List.mem_singleton] at h
      exact ⟨i, dhcpOffer, Or.inl rfl, h⟩
  rcases eq_or_ne (typeOf s d) dhcpRequest with h3 | h3
  · cases hip : wanted s d with
    | none =>
      rw [(step_ignored h3 hip).2] at h
      cases h
    | some ip =>
      cases hi : grants (received s d) ip d.alloc with
      | none =>
        rw [(step_refused h3 hip hi).2] at h
        cases h
      | some i =>
        obtain ⟨haddr, -, -⟩ := grants_some hi
        obtain ⟨-, hsubnet, hlease⟩ := (freeClient_confined (client s d) s.entries).config i
        rw [(step_granted h3 hip hi).2, List.mem_singleton] at h
        refine ⟨i, dhcpAck, Or.inr rfl, h.trans ?_⟩
        rw [fillReply_congr _ _ ip dhcpAck hlease hsubnet, ← haddr]
        rfl
  · rw [(step_other s d h1 h3).2] at h
    cases h

/-- What a client decodes from an OFFER or an ACK is what the server is configured with, and
the options have room. -/
theorem replies_decode (s : Server n) (d : Datagram) (hfits : Fits s.config) :
    ∀ reply ∈ datagrams (udpRecvProc s d).2, ∃ i msgType,
      (msgType = dhcpOffer ∨ msgType = dhcpAck) ∧
      (optionBytes msgType s.config (s.entries i)).length ≤ DhcpType.optionsSize ∧
      Configured reply (received s d).dhcpData.bytes s.config (s.entries i) msgType := by
  intro reply hreply
  obtain ⟨i, msgType, htype, rfl⟩ := reply_filled hreply
  exact ⟨i, msgType, htype, optionBytes_length msgType _ _ hfits,
    fillReply_configured _ _ _ msgType hfits⟩

def poolLan : Server 2 := { pool with config := { pool.config with domain := some [108, 97, 110] } }

theorem replies_decode_pool :
    let d := datagram 1 3 0x0307A8C0 true
    (datagrams (udpRecvProc poolLan d).2).length = 1 ∧
      ∀ reply ∈ datagrams (udpRecvProc poolLan d).2, ∃ i msgType,
        (msgType = dhcpOffer ∨ msgType = dhcpAck) ∧
        (optionBytes msgType poolLan.config (poolLan.entries i)).length ≤ DhcpType.optionsSize ∧
        Configured reply (received poolLan d).dhcpData.bytes poolLan.config (poolLan.entries i)
          msgType :=
  ⟨by decide +kernel, replies_decode poolLan _ (by decide)⟩

end Lrndis.Dhcp
