import Lrndis.Dhcp.Options
import Lrndis.Dhcp.Pool

/-!
# Datagrams shorter than the buffer

A datagram overwrites only the first bytes of `dhcp_data`. The others are from an earlier
request, or from the reply to it, and the server reads all of them.
-/

namespace Lrndis.Dhcp

open Mem Run

variable {n : Nat}

/-- What the server does on a datagram does not depend on what was in `dhcp_data`. -/
def Determined (payload : List UInt8) : Prop :=
  ∀ (n : Nat) (config : Config) (entries : Table n) (port : UInt16) (alloc : Bool)
    (b b' : Buffer DhcpType.size),
    let r := udpRecvProc ⟨b, config, entries⟩ ⟨payload, port, alloc⟩
    let r' := udpRecvProc ⟨b', config, entries⟩ ⟨payload, port, alloc⟩
    r.2 = r'.2 ∧ r.1.entries = r'.1.entries

/-! ## When old bytes matter -/

/-- With some bytes behind `own`, the search from `i` on finds an address. -/
def canCarry (own : List UInt8) (i : Nat) : Bool :=
  if i + 1 < own.length then
    if i + (byteAt own (i + 1)).toNat + 2 > DhcpType.optionsSize then false
    else if byteAt own i = dhcpIpaddress then byteAt own (i + 1) = 4
    else canCarry own (i + (byteAt own (i + 1)).toNat + 2)
  -- the length of the last option is an old byte
  else if i + 1 = own.length ∧ byteAt own i ≠ dhcpIpaddress then i + 8 ≤ DhcpType.optionsSize
  else i + 6 ≤ DhcpType.optionsSize
termination_by own.length - i

/-- The datagram fills the buffer, or its own bytes say that it is no DISCOVER, and that
it is no REQUEST either or that nothing behind them can be the requested address. -/
def Settled (payload : List UInt8) : Prop :=
  DhcpType.size ≤ payload.length ∨
    (2 < (options payload).length ∧ messageType payload ≠ dhcpDiscover ∧
      (messageType payload = dhcpRequest → canCarry (options payload) 0 = false))

instance (payload : List UInt8) : Decidable (Settled payload) := by
  unfold Settled; infer_instance

theorem canCarry_of_addr {own rest : List UInt8} {i : Nat} {ip : UInt32}
    (h : addrFrom (own ++ rest) DhcpType.optionsSize i = some ip) : canCarry own i = true := by
  fun_induction canCarry own i with
  | case1 i hi hcut =>
    rw [addrFrom_cut_append hi hcut] at h
    simp at h
  | case2 i hi hfit hattr =>
    rw [addrFrom_found_append hi (Nat.le_of_not_lt hfit) hattr] at h
    split at h
    · simp at h
    · rename_i hlen
      simpa using hlen
  | case3 i hi hfit hattr ih =>
    rw [addrFrom_next_append hi (Nat.le_of_not_lt hfit) hattr] at h
    exact ih h
  | case4 i hi hlast =>
    have h0 : byteAt (own ++ rest) i = byteAt own i := byteAt_append_left _ _ _ (by omega)
    rw [decide_eq_true_eq]
    apply (addrFrom_room h).2
    rw [h0]
    exact hlast.2
  | case5 i hi hlast =>
    rw [decide_eq_true_eq]
    exact (addrFrom_room h).1

theorem byteAt_behind (own rest : List UInt8) (i k : Nat) (h : own.length = i) :
    byteAt (own ++ rest) (i + k) = byteAt rest k := by
  rw [byteAt_append_right _ _ _ (by omega), ← h, Nat.add_sub_cancel_left]

theorem addrFrom_option {attrs : List UInt8} {i : Nat} (h0 : byteAt attrs i = dhcpIpaddress)
    (h1 : byteAt attrs (i + 1) = 4) (hroom : i + 6 ≤ DhcpType.optionsSize) :
    ∃ ip, addrFrom attrs DhcpType.optionsSize i = some ip := by
  refine ⟨word32At attrs (i + 2), ?_⟩
  rw [addrFrom_found (by rw [h1]; exact hroom) h0, h1]
  rfl

def Extends (own : List UInt8) (i : Nat) : Prop :=
  ∃ rest ip, own.length + rest.length = DhcpType.optionsSize ∧
    addrFrom (own ++ rest) DhcpType.optionsSize i = some ip

theorem Extends.of_append {own : List UInt8} {i : Nat} (gap : List UInt8)
    (h : Extends (own ++ gap) i) : Extends own i := by
  obtain ⟨rest, ip, hlen, hip⟩ := h
  rw [List.append_assoc] at hip
  refine ⟨gap ++ rest, ip, ?_, hip⟩
  rw [← hlen, List.length_append, List.length_append, Nat.add_assoc]

theorem extends_behind {own : List UInt8} (hroom : own.length + 6 ≤ DhcpType.optionsSize) :
    Extends own own.length := by
  let rest : List UInt8 :=
    dhcpIpaddress :: 4 :: List.replicate (DhcpType.optionsSize - (own.length + 2)) 0
  obtain ⟨ip, hip⟩ := addrFrom_option (byteAt_behind own rest own.length 0 rfl)
    (byteAt_behind own rest own.length 1 rfl) hroom
  refine ⟨rest, ip, ?_, hip⟩
  simp only [rest, List.length_cons, List.length_replicate]
  omega

theorem extends_inside {own : List UInt8} {i : Nat} (hlen : own.length ≤ DhcpType.optionsSize)
    (hi : i + 1 < own.length) (h0 : byteAt own i = dhcpIpaddress) (h1 : byteAt own (i + 1) = 4)
    (hroom : i + 6 ≤ DhcpType.optionsSize) : Extends own i := by
  let rest : List UInt8 := List.replicate (DhcpType.optionsSize - own.length) 0
  obtain ⟨ip, hip⟩ := addrFrom_option ((byteAt_append_left own rest i (by omega)).trans h0)
    ((byteAt_append_left own rest (i + 1) hi).trans h1) hroom
  refine ⟨rest, ip, ?_, hip⟩
  simp only [rest, List.length_replicate]
  omega

theorem extends_of_canCarry {own : List UInt8} {i : Nat}
    (hlen : own.length ≤ DhcpType.optionsSize) (h : canCarry own i = true) : Extends own i := by
  fun_induction canCarry own i with
  | case1 i hi hcut => simp at h
  | case2 i hi hfit hattr =>
    rw [decide_eq_true_eq] at h
    rw [h, show (4 : UInt8).toNat = 4 from rfl] at hfit
    exact extends_inside hlen hi hattr h (by omega)
  | case3 i hi hfit hattr ih =>
    obtain ⟨rest, ip, hrest, hip⟩ := ih h
    refine ⟨rest, ip, hrest, ?_⟩
    rw [addrFrom_next_append hi (Nat.le_of_not_lt hfit) hattr, hip]
  | case4 i hi hlast =>
    -- an option without data, then an address
    rw [decide_eq_true_eq] at h
    obtain ⟨hend, hattr⟩ := hlast
    have hzero : (own ++ [0]).length = i + 2 := by simp [← hend]
    have hbehind : Extends (own ++ [0]) (i + 2) := by
      rw [← hzero]
      apply extends_behind
      omega
    have h0 : byteAt (own ++ [0]) i = byteAt own i := byteAt_append_left _ _ _ (by omega)
    have h1 : byteAt (own ++ [0]) (i + 1) = 0 := byteAt_behind own [0] (i + 1) 0 hend.symm
    obtain ⟨rest, ip, hrest, hip⟩ := hbehind
    apply Extends.of_append [0]
    refine ⟨rest, ip, hrest, ?_⟩
    rw [addrFrom_next_append (by omega) (by rw [h1]; simp; omega) (by rwa [h0]), h1]
    exact hip
  | case5 i hi hlast =>
    rw [decide_eq_true_eq] at h
    rcases Nat.lt_or_ge i own.length with hin | hout
    · have hend : i + 1 = own.length := by omega
      have hattr : byteAt own i = dhcpIpaddress := by
        by_contra hne
        exact hlast ⟨hend, hne⟩
      have hfour : (own ++ [4]).length = i + 2 := by simp [← hend]
      apply Extends.of_append [4]
      apply extends_inside (by omega) (by omega) _ _ h
      · rw [byteAt_append_left _ _ _ hin, hattr]
      · exact byteAt_behind own [4] (i + 1) 0 hend.symm
    · have hgap : (own ++ List.replicate (i - own.length) 0).length = i := by
        rw [List.length_append, List.length_replicate]
        omega
      apply Extends.of_append (List.replicate (i - own.length) 0)
      have hbehind : Extends (own ++ List.replicate (i - own.length) 0)
          (own ++ List.replicate (i - own.length) 0).length := extends_behind (by omega)
      rwa [hgap] at hbehind

/-! ## Settled datagrams -/

theorem received_full {s s' : Server n} {d : Datagram} (h : DhcpType.size ≤ d.payload.length) :
    (received s d).dhcpData = (received s' d).dhcpData := by
  have hlen : (d.payload.take DhcpType.size).length = DhcpType.size := by simpa using h
  ext1
  rw [received_bytes, received_bytes, hlen, List.drop_eq_nil_of_le (by simp),
    List.drop_eq_nil_of_le (by simp)]

theorem typeOf_own {s : Server n} {d : Datagram} (h : 2 < (options d.payload).length) :
    typeOf s d = messageType d.payload := by
  obtain ⟨rest, hrest, -⟩ := received_options s d
  unfold typeOf messageType
  rw [hrest, byteAt_append_left _ _ _ h]

theorem wanted_none {s : Server n} {d : Datagram} (h : canCarry (options d.payload) 0 = false) :
    wanted s d = none := by
  obtain ⟨rest, hrest, -⟩ := received_options s d
  cases hip : wanted s d with
  | none => rfl
  | some ip =>
    unfold wanted at hip
    rw [requestedAddr_eq, hrest] at hip
    rw [canCarry_of_addr hip] at h
    simp at h

theorem determined_of_settled {payload : List UInt8} (h : Settled payload) :
    Determined payload := by
  intro n config entries port alloc b b' r r'
  rcases h with hfull | ⟨hlen, h1, h3⟩
  · have hsame : received ⟨b, config, entries⟩ ⟨payload, port, alloc⟩ =
        received ⟨b', config, entries⟩ ⟨payload, port, alloc⟩ :=
      congrArg (fun data => (⟨data, config, entries⟩ : Server n)) (received_full hfull)
    have hr : r = r' := by
      simp only [r, r', udpRecvProc, hsame]
    rw [hr]
    exact ⟨rfl, rfl⟩
  · have hstep : ∀ data : Buffer DhcpType.size,
        udpRecvProc ⟨data, config, entries⟩ ⟨payload, port, alloc⟩ =
          (received ⟨data, config, entries⟩ ⟨payload, port, alloc⟩, [.free .arg]) := by
      intro data
      apply step_unanswered
      · rw [typeOf_own hlen]
        exact h1
      · rw [typeOf_own hlen]
        exact fun ht => wanted_none (h3 ht)
    constructor
    · simp only [r, r', hstep]
    · simp only [r, r', hstep]
      rfl

/-! ## Other datagrams -/

def single (data : Buffer DhcpType.size) (addr : UInt32) : Server 1 where
  dhcpData := data
  config := { addr := 0x0107A8C0, dns := 0x0107A8C0, domain := none }
  entries := fun _ => { mac := Buffer.zero 6, addr := addr, subnet := 0x00FFFFFF, lease := 86400 }

def Answered (data : List UInt8) (addr : UInt32) : Prop :=
  messageType data = dhcpDiscover ∨
    (messageType data = dhcpRequest ∧ requestedAddr data = some addr)

theorem freeClient_vacant_table {entries : Table n}
    (hzero : ∀ i, (entries i).mac = Buffer.zero 6) (m : Mac) : freeClient entries m = entries := by
  rcases eq_or_ne m (Buffer.zero 6) with rfl | hm
  · exact freeClient_zero entries
  · apply freeClient_unbound
    intro i hi
    exact hm (hi.symm.trans (hzero i))

theorem single_answers (data : Buffer DhcpType.size) (addr : UInt32) (d : Datagram)
    (hd : (received (single data addr) d).dhcpData = data) (halloc : d.alloc = true)
    (h : Answered data.bytes addr) :
    ∃ e t, datagrams (udpRecvProc (single data addr) d).2 =
      [(fillReply data (single data addr).config e addr t).bytes] := by
  have hvacant : owner (single data addr).entries 0 = none := (owner_eq_none _ _).mpr rfl
  rcases h with h1 | ⟨h3, hip⟩
  · rw [(step_discover _ d (by rw [typeOf, hd, h1])).2]
    obtain ⟨j, hj⟩ := discover_offers (received (single data addr) d) d halloc 0 (Or.inl hvacant)
    rw [hd] at hj
    exact ⟨_, _, hj⟩
  · have hsame : freeClient (single data addr).entries (client (single data addr) d) =
        (single data addr).entries := freeClient_vacant_table (fun _ => rfl) _
    have hwanted : wanted (single data addr) d = some addr := by rw [wanted, hd, hip]
    have hi : grants (received (single data addr) d) addr d.alloc = some 0 := by
      refine Option.filter_eq_some_iff.mpr ⟨?_, ?_⟩
      · exact (congrArg (fun t => entryByIp t addr) hsame).trans
          (entryByIp_of_addr (Function.injective_of_subsingleton _) 0)
      · rw [halloc, Bool.and_true, isVacant_iff]
        exact congrArg (fun t : Table 1 => (t 0).mac) hsame
    have hreply := (step_granted (by rw [typeOf, hd, h3]) hwanted hi).2
    rw [hd] at hreply
    exact ⟨_, _, hreply⟩

theorem fillReply_padding (data : Buffer DhcpType.size) (c : Config) (hc : c.domain = none)
    (e : Entry) (ip : UInt32) (t : UInt8) : (fillReply data c e ip t).byte 515 = data.byte 515 := by
  have hlen : (fillOptions t c.domain c.dns e.lease c.addr c.addr e.subnet).length ≤ 275 := by
    rw [hc]
    unfold fillOptions
    simp only [List.length_append, List.length_cons, List.length_nil, bytes32_length,
      List.length_reverse]
    split <;> split <;> simp
  apply fillReply_frame data c e ip t 515 (by omega)
  exact Or.inr ⟨Nat.le_refl _, by omega⟩

theorem received_again (s : Server n) (d : Datagram) (behind : List UInt8)
    (h : s.dhcpData.bytes = d.payload ++ behind) : (received s d).dhcpData = s.dhcpData := by
  have hlen := s.dhcpData.length_bytes
  rw [h, List.length_append] at hlen
  ext1
  rw [received_bytes, List.take_of_length_le (by omega), h, List.drop_left]

theorem options_whole {own rest : List UInt8} (hlen : own.length + rest.length = 515)
    (h : DhcpType.options ≤ own.length) : options (own ++ rest) = options own ++ rest := by
  unfold options slice
  unfold DhcpType.options at h ⊢
  unfold DhcpType.optionsSize
  rw [List.drop_append_of_le_length h, List.take_of_length_le (by simp; omega),
    List.take_of_length_le (by simp; omega)]

theorem options_snoc {l : List UInt8} (h : l.length = 515) (x : UInt8) :
    options (l ++ [x]) = options l := by
  unfold options slice DhcpType.options DhcpType.optionsSize
  rw [List.drop_append_of_le_length (by omega), List.take_append_of_le_length (by simp; omega)]

theorem exists_answered {payload : List UInt8} (h : ¬ Settled payload) :
    ∃ rest addr, payload.length + rest.length = 515 ∧ Answered (payload ++ rest) addr := by
  have hshort : payload.length < 516 := by
    by_contra hlong
    exact h (Or.inl (Nat.le_of_not_lt hlong))
  rcases Nat.lt_or_ge 242 payload.length with htype | htype
  · have hsize : (options payload).length = payload.length - 240 := by
      simp [options, slice, DhcpType.options, DhcpType.optionsSize]
      omega
    have hown : 2 < (options payload).length := by omega
    rcases eq_or_ne (messageType payload) dhcpDiscover with h1 | h1
    · refine ⟨List.replicate (515 - payload.length) 0, 0, by simp; omega, Or.inl ?_⟩
      rw [messageType_eq] at h1 ⊢
      rw [byteAt_append_left _ _ _ htype, h1]
    · have hreq : messageType payload = dhcpRequest ∧ canCarry (options payload) 0 = true := by
        by_contra hno
        refine h (Or.inr ⟨hown, h1, fun h3 => ?_⟩)
        by_contra hcarry
        exact hno ⟨h3, by simpa using hcarry⟩
      obtain ⟨rest, addr, hlen, hip⟩ :=
        extends_of_canCarry (by unfold DhcpType.optionsSize; omega) hreq.2
      unfold DhcpType.optionsSize at hlen
      have htotal : payload.length + rest.length = 515 := by omega
      have hoptions := options_whole htotal (by unfold DhcpType.options; omega)
      refine ⟨rest, addr, htotal, Or.inr ⟨?_, ?_⟩⟩
      · rw [messageType, hoptions, byteAt_append_left _ _ _ hown]
        exact hreq.1
      · rw [requestedAddr_eq, hoptions, hip]
  · -- The type is behind the datagram too, and may be that of a DISCOVER.
    let gap : List UInt8 := List.replicate (242 - payload.length) 0
    have hgap : (payload ++ gap).length = 242 := by simp [gap]; omega
    refine ⟨gap ++ dhcpDiscover :: List.replicate 272 0, 0, ?_, Or.inl ?_⟩
    · rw [← List.length_append, ← List.append_assoc, List.length_append, hgap, List.length_cons,
        List.length_replicate]
    · rw [messageType_eq, ← List.append_assoc]
      exact byteAt_behind _ _ 242 0 hgap

theorem settled_of_determined {payload : List UInt8} (h : Determined payload) :
    Settled payload := by
  by_contra hno
  obtain ⟨rest, addr, hlen, hans⟩ := exists_answered hno
  -- two buffers with the same message and different padding
  let data : UInt8 → Buffer DhcpType.size := fun x =>
    ⟨payload ++ (rest ++ [x]), by simp [DhcpType.size]; omega⟩
  have hbyte : ∀ x, (data x).byte 515 = x := by
    intro x
    unfold Buffer.byte
    simp only [data]
    rw [← List.append_assoc, byteAt_append_right _ _ _ (by simp; omega), List.length_append, hlen]
    rfl
  have hans' : ∀ x, Answered (data x).bytes addr := by
    intro x
    have hoptions : options (data x).bytes = options (payload ++ rest) := by
      simp only [data]
      rw [← List.append_assoc]
      exact options_snoc (by simpa using hlen) x
    unfold Answered messageType requestedAddr at hans ⊢
    rw [hoptions]
    exact hans
  have hreply : ∀ x, ∃ e t, datagrams (udpRecvProc (single (data x) addr) ⟨payload, 0, true⟩).2 =
      [(fillReply (data x) (single (data x) addr).config e addr t).bytes] := fun x =>
    single_answers (data x) addr _ (received_again _ _ _ rfl) rfl (hans' x)
  obtain ⟨e, t, h0⟩ := hreply 0
  obtain ⟨e', t', h1⟩ := hreply 1
  have hsame := (h 1 (single (data 0) addr).config (single (data 0) addr).entries 0 true
    (data 0) (data 1)).1
  have heq := (h0.symm.trans (congrArg datagrams hsame)).trans h1
  have hb := congrArg (fun l => byteAt l 515) (List.singleton_injective heq)
  have h2 := fillReply_padding (data 0) (single (data 0) addr).config rfl e addr t
  have h3 := fillReply_padding (data 1) (single (data 1) addr).config rfl e' addr t'
  rw [hbyte] at h2 h3
  exact absurd (h2.symm.trans (hb.trans h3)) (by decide)

/-- Old bytes play no part exactly for the datagrams that settle what they are. -/
theorem determined_iff_settled (payload : List UInt8) : Determined payload ↔ Settled payload :=
  ⟨settled_of_determined, determined_of_settled⟩

def cutShort (type : UInt8) (k : Nat) : Datagram where
  payload := (datagram 1 type 0 true).payload.take k
  port := 68
  alloc := true

/-- Bytes that end before the options are answered with an OFFER because of the DISCOVER
of another client before them, and a REQUEST without an address loses a lease because of
the address in the REQUEST of another client. -/
theorem stale_bytes_count :
    let full := [datagram 1 3 0x0207A8C0 true, datagram 2 3 0x0307A8C0 true]
    (¬ ∀ payload, Determined payload) ∧
    datagrams (udpRecvProc (run udpRecvProc pool full).1 (cutShort 0 34)).2 = [] ∧
    (datagrams (udpRecvProc (run udpRecvProc pool (full ++ [datagram 3 1 0 true])).1
      (cutShort 0 34)).2).map messageType = [dhcpOffer] ∧
    ((run udpRecvProc pool [datagram 1 3 0x0207A8C0 true,
        cutShort 3 243]).1.entries 0).mac = macOf 1 ∧
    ((run udpRecvProc pool [datagram 1 3 0x0207A8C0 true, datagram 3 3 0x0907A8C0 true,
        cutShort 3 243]).1.entries 0).mac = Buffer.zero 6 := by
  refine ⟨fun h => ?_, ?_, ?_, ?_, ?_⟩
  · exact absurd (settled_of_determined (h [])) (by decide)
  · decide +kernel
  · decide +kernel
  · decide +kernel
  · decide +kernel

end Lrndis.Dhcp
