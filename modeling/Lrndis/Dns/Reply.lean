import Lrndis.Dns.Parse

/-!
# The reply as a DNS message

The counts of the sections that the reply does not have are the client's, and so are the
lengths of the labels.
-/

namespace Lrndis.Dns

open Mem DnsFormat

/-! ## The bytes of the reply -/

theorem response_byte (payload : List UInt8) (len : Nat) (addr : UInt32) (i : Nat) (h : i < len)
    (hlen : len ≤ payload.length) :
    (response payload len addr).byte i =
      if i = 2 then byteAt payload 2 ||| 0x80
      else if i = 6 then 0
      else if i = 7 then 1
      else byteAt payload i := by
  have hcopy : ∀ k < len, ((Buffer.zero (len + dnsAnswerSize)).write 0 (payload.take len)).byte k =
      byteAt payload k := by
    intro k hk
    rw [Buffer.byte_write_inside _ _ _ _ (by omega) (Nat.zero_le _) (by simp; omega),
      Nat.sub_zero, byteAt_take _ _ _ hk]
  unfold response
  simp only
  rw [Buffer.byte_write_outside _ _ _ _ (Or.inl h)]
  split
  · rename_i h2
    subst h2
    rw [Buffer.byte_write_outside _ _ _ _ (by simp), Buffer.setByte,
      Buffer.byte_write_inside _ _ _ _ (by omega) (by simp) (by simp), hcopy 2 h]
    rfl
  rename_i h2
  split
  · rename_i h6
    subst h6
    rw [Buffer.byte_write_inside _ _ _ _ (by omega) (by simp) (by simp)]
    rfl
  rename_i h6
  split
  · rename_i h7
    subst h7
    rw [Buffer.byte_write_inside _ _ _ _ (by omega) (by simp) (by simp)]
    rfl
  · rename_i h7
    rw [Buffer.byte_write_outside _ _ _ _ (by simp; omega), Buffer.setByte,
      Buffer.byte_write_outside _ _ _ _ (by simp; omega), hcopy i h]

theorem response_slice (payload : List UInt8) (len : Nat) (addr : UInt32) (h12 : 12 ≤ len)
    (hlen : len ≤ payload.length) :
    slice payload 12 (len - 12) = slice (response payload len addr).bytes 12 (len - 12) := by
  apply slice_congr _ _ _ _ (by omega) (by rw [Buffer.length_bytes]; omega)
  intro i hi
  have hbyte := response_byte payload len addr (12 + i) (by omega) hlen
  rw [if_neg (by omega), if_neg (by omega), if_neg (by omega)] at hbyte
  exact hbyte.symm

theorem response_drop (payload : List UInt8) (len : Nat) (addr : UInt32) :
    (response payload len addr).bytes.drop len = dnsAnswer addr := by
  have hlast := Buffer.slice_write_same
    ((((Buffer.zero (len + dnsAnswerSize)).write 0 (payload.take len)).setByte 2
      (((Buffer.zero (len + dnsAnswerSize)).write 0 (payload.take len)).byte 2 ||| 0x80)).write 6
        [0, 1]) len (dnsAnswer addr) (Nat.le_refl _)
  rw [slice, List.take_of_length_le (by simp [dnsAnswer, dnsAnswerSize])] at hlast
  exact hlast

theorem response_split (payload : List UInt8) (len : Nat) (addr : UInt32) (h12 : 12 ≤ len)
    (hlen : len ≤ payload.length) :
    (response payload len addr).bytes =
      (response payload len addr).bytes.take 12 ++ slice payload 12 (len - 12) ++
        dnsAnswer addr := by
  have hanswer := response_drop payload len addr
  have hquestion := response_slice payload len addr h12 hlen
  rw [hquestion, slice, ← hanswer, List.append_assoc]
  have hsplit : (response payload len addr).bytes.drop 12 =
      ((response payload len addr).bytes.drop 12).take (len - 12) ++
        (response payload len addr).bytes.drop len := by
    have happ := List.take_append_drop (len - 12) ((response payload len addr).bytes.drop 12)
    rw [List.drop_drop, show 12 + (len - 12) = len by omega] at happ
    exact happ.symm
  rw [← hsplit, List.take_append_drop]

/-! ## What a good reply is -/

/-- The reply is a message of the format, with the question of the query and one answer
to it. -/
def WellFormed (query reply : List UInt8) (addr : UInt32) : Prop :=
  ∃ m q a stop, message reply = some m ∧ m.id = net16At query 0 ∧ m.response = true ∧
    m.questions = [q] ∧ question reply 12 = some (q, stop) ∧
    slice reply 12 (stop - 12) = slice query 12 (stop - 12) ∧
    m.answers = [a] ∧ a.name = q.name ∧ a.type = 1 ∧ a.data = bytes32 addr ∧
    m.authority = [] ∧ m.additional = []

/-- The query announces no records of its own, and its labels are as short as the format
wants them. -/
structure Clean (query : List UInt8) : Prop where
  authority : DnsHeader.nRecord query 2 = 0
  additional : DnsHeader.nRecord query 3 = 0
  short : ∀ ls, labels (query.drop DnsHeader.size) = some ls → ∀ l ∈ ls, l.length ≤ 63

/-! ## The parts of the reply -/

theorem or_and_self_ne (b : UInt8) : (b ||| 0x80) &&& 0x80 ≠ 0 := by
  intro h
  have hnat := congrArg UInt8.toNat h
  rw [UInt8.toNat_and, UInt8.toNat_or] at hnat
  have hbit := congrArg (Nat.testBit · 7) hnat
  simp only [Nat.testBit_and, Nat.testBit_or] at hbit
  rw [show (UInt8.toNat 0x80).testBit 7 = true from rfl, Bool.or_true] at hbit
  exact absurd hbit (by decide)

section Parts

variable (payload : List UInt8) (len : Nat) (addr : UInt32)

theorem response_header (h12 : 12 ≤ len) (hlen : len ≤ payload.length) :
    net16At (response payload len addr).bytes 0 = net16At payload 0 ∧
      (byteAt (response payload len addr).bytes 2 &&& 0x80 ≠ 0) ∧
      net16At (response payload len addr).bytes 4 = net16At payload 4 ∧
      net16At (response payload len addr).bytes 6 = 1 ∧
      net16At (response payload len addr).bytes 8 = net16At payload 8 ∧
      net16At (response payload len addr).bytes 10 = net16At payload 10 := by
  have hbyte := fun i h => response_byte payload len addr i h hlen
  simp only [Buffer.byte] at hbyte
  simp only [net16At]
  rw [hbyte 0 (by omega), hbyte (0 + 1) (by omega), hbyte 2 (by omega), hbyte 4 (by omega),
    hbyte (4 + 1) (by omega), hbyte 6 (by omega), hbyte (6 + 1) (by omega), hbyte 8 (by omega),
    hbyte (8 + 1) (by omega), hbyte 10 (by omega), hbyte (10 + 1) (by omega)]
  refine ⟨rfl, ?_, rfl, rfl, rfl, rfl⟩
  exact or_and_self_ne _

theorem response_counts (h12 : 12 ≤ len) (hlen : len ≤ payload.length)
    (hone : DnsHeader.nRecord payload 0 = 1) (hns : DnsHeader.nRecord payload 2 = 0)
    (har : DnsHeader.nRecord payload 3 = 0) :
    (net16At (response payload len addr).bytes 4).toNat = 1 ∧
      (net16At (response payload len addr).bytes 6).toNat = 1 ∧
      (net16At (response payload len addr).bytes 8).toNat = 0 ∧
      (net16At (response payload len addr).bytes 10).toNat = 0 := by
  obtain ⟨-, -, hqd, han, hns', har'⟩ := response_header payload len addr h12 hlen
  rw [hqd, han, hns', har']
  exact ⟨congrArg UInt16.toNat hone, rfl, congrArg UInt16.toNat hns, congrArg UInt16.toNat har⟩

theorem answer_byte (i : Nat) :
    byteAt (response payload len addr).bytes (len + i) = byteAt (dnsAnswer addr) i := by
  rw [← response_drop payload len addr, byteAt_drop]

theorem response_record (h12 : 12 < len) (ls : List (List UInt8)) (stop : Nat)
    (hname : name (response payload len addr).bytes 12 12 = some (ls, stop)) :
    record (response payload len addr).bytes len =
      some ({ name := ls, type := 1, class_ := 1, ttl := 32, data := bytes32 addr },
        len + dnsAnswerSize) := by
  have hbyte := answer_byte payload len addr
  have hsize := Buffer.length_bytes (response payload len addr)
  have h16 : dnsAnswerSize = 16 := rfl
  have hpointer : name (response payload len addr).bytes len len = some (ls, len + 2) := by
    have htarget : (byteAt (response payload len addr).bytes (len + 1)).toNat = 12 := by
      rw [hbyte 1]
      rfl
    rw [name_pointer _ len len (by omega) (hbyte 0) (by omega), htarget, hname]
    rfl
  have hword : ∀ i, net16At (response payload len addr).bytes (len + i) =
      net16At (dnsAnswer addr) i := by
    intro i
    rw [net16At, net16At, hbyte i, Nat.add_assoc, hbyte (i + 1)]
  have htype : net16At (response payload len addr).bytes (len + 2) = 1 := hword 2
  have hclass : net16At (response payload len addr).bytes (len + 2 + 2) = 1 := hword 4
  have hlength : net16At (response payload len addr).bytes (len + 2 + 8) = 4 := hword 10
  have httl : net32At (response payload len addr).bytes (len + 2 + 4) = 32 := by
    simp only [net32At, Nat.add_assoc, hbyte]
    rfl
  have hdata : slice (response payload len addr).bytes (len + 2 + 10) 4 = bytes32 addr := by
    have hrest : (response payload len addr).bytes.drop (len + 12) = bytes32 addr := by
      rw [← List.drop_drop, response_drop]
      rfl
    rw [slice, hrest]
    rfl
  have hfour : (4 : UInt16).toNat = 4 := rfl
  rw [record, hpointer, Option.bind_some]
  simp only [htype, hclass, httl, hlength, hfour, hdata]
  rw [if_pos (by omega), h16]

theorem response_question (hlen : len ≤ payload.length) (ls : List (List UInt8))
    (rest : List UInt8) (hwire : payload.drop 12 = encode ls ++ rest)
    (hcount : len = 12 + (encode ls).length + 4) :
    ∃ tail, (response payload len addr).bytes =
      (response payload len addr).bytes.take 12 ++ encode ls ++ tail ∧
        ((response payload len addr).bytes.take 12).length = 12 := by
  refine ⟨rest.take 4 ++ dnsAnswer addr, ?_, ?_⟩
  · have hslice : slice payload 12 (len - 12) = encode ls ++ rest.take 4 := by
      rw [slice, hwire, List.take_append]
      congr 1
      · exact List.take_of_length_le (by omega)
      · congr 1
        omega
    conv_lhs => rw [response_split payload len addr (by omega) hlen, hslice]
    simp only [List.append_assoc]
  · rw [List.length_take, Buffer.length_bytes]
    omega

end Parts

/-! ## When the reply is good -/

theorem question_of_name {msg : List UInt8} {off stop : Nat} {ls : List (List UInt8)}
    (hroom : stop + 4 ≤ msg.length) (hname : name msg off off = some (ls, stop)) :
    ∃ q, question msg off = some (q, stop + 4) ∧ q.name = ls := by
  rw [question, hname, Option.bind_some]
  simp only
  rw [if_pos hroom]
  exact ⟨_, rfl, rfl⟩

theorem labels_question {payload : List UInt8} {ls : List (List UInt8)} {rest : List UInt8}
    (hlengths : ∀ l ∈ ls, 1 ≤ l.length ∧ l.length < dnsMaxHostNameLen)
    (hwire : payload.drop DnsHeader.size = encode ls ++ rest) :
    labels (payload.drop DnsHeader.size) = some ls := by
  rw [hwire]
  apply labels_encode
  intro l hl
  have h128 : dnsMaxHostNameLen = 128 := rfl
  have hl := hlengths l hl
  omega

theorem wellFormed_clean (payload : List UInt8) (len : Nat) (addr addr' : UInt32)
    (hlen : len ≤ payload.length) (ls : List (List UInt8)) (rest : List UInt8)
    (hlengths : ∀ l ∈ ls, 1 ≤ l.length ∧ l.length < dnsMaxHostNameLen)
    (hwire : payload.drop 12 = encode ls ++ rest) (hcount : len = 12 + (encode ls).length + 4)
    (h : WellFormed payload (response payload len addr).bytes addr') : Clean payload := by
  obtain ⟨-, -, -, -, hns, har⟩ := response_header payload len addr (by omega) hlen
  obtain ⟨tail, hsplit, hpre⟩ := response_question payload len addr hlen ls rest hwire hcount
  have hlt : ∀ l ∈ ls, 1 ≤ l.length ∧ l.length < 192 := fun l hl =>
    ⟨(hlengths l hl).1, Nat.lt_trans (hlengths l hl).2 (by decide)⟩
  have hlabels := labels_question hlengths hwire
  obtain ⟨m, q, a, stop, hm, -, -, -, hq, -, -, -, -, -, hauth, hadd⟩ := h
  unfold message at hm
  rw [if_neg (by rw [Buffer.length_bytes]; omega)] at hm
  simp only [Option.bind_eq_some_iff, Option.ite_none_right_eq_some, Option.some.injEq] at hm
  obtain ⟨qd, -, an, -, ns, hns', ar, har', -, rfl⟩ := hm
  simp only at hauth hadd
  have hzero : ∀ k : UInt16, k.toNat = 0 → k = 0 := fun k hk => UInt16.toNat_inj.mp hk
  refine ⟨hzero _ ?_, hzero _ ?_, ?_⟩
  · have hlength := many_length _ _ _ ns.1 ns.2 hns'
    rw [hauth, List.length_nil, hns] at hlength
    exact hlength.symm
  · have hlength := many_length _ _ _ ar.1 ar.2 har'
    rw [hadd, List.length_nil, har] at hlength
    exact hlength.symm
  · rintro ls' hls' l hl
    rw [hlabels] at hls'
    rw [← Option.some.inj hls'] at hl
    -- A label of 64 bytes or more is no label to the reader of the reply.
    by_contra hlong
    have hnone := name_long ((response payload len addr).bytes.take 12) ls tail 12 hlt
      ⟨l, hl, by omega⟩
    rw [← hsplit, hpre] at hnone
    rw [question, hnone] at hq
    simp at hq

theorem clean_wellFormed (payload : List UInt8) (len : Nat) (addr : UInt32)
    (hlen : len ≤ payload.length) (ls : List (List UInt8)) (rest : List UInt8)
    (hlengths : ∀ l ∈ ls, 1 ≤ l.length ∧ l.length < dnsMaxHostNameLen)
    (hwire : payload.drop 12 = encode ls ++ rest) (hcount : len = 12 + (encode ls).length + 4)
    (hone : DnsHeader.nRecord payload 0 = 1) (h : Clean payload) :
    WellFormed payload (response payload len addr).bytes addr := by
  obtain ⟨hns0, har0, hshort⟩ := h
  obtain ⟨hid, hqr, -⟩ := response_header payload len addr (by omega) hlen
  obtain ⟨tail, hsplit, hpre⟩ := response_question payload len addr hlen ls rest hwire hcount
  have hsize := Buffer.length_bytes (response payload len addr)
  have hlabels := labels_question hlengths hwire
  have hname := name_encode ((response payload len addr).bytes.take 12) ls tail 12
    fun l hl => ⟨(hlengths l hl).1, hshort ls hlabels l hl⟩
  rw [← hsplit, hpre] at hname
  obtain ⟨q, hq, hqname⟩ := question_of_name (by omega) hname
  rw [← hcount] at hq
  have hrecord := response_record payload len addr (by omega) ls _ hname
  obtain ⟨hcount1, hcount2, hcount3, hcount4⟩ :=
    response_counts payload len addr (by omega) hlen hone hns0 har0
  have hmessage : message (response payload len addr).bytes = some {
      id := net16At payload 0
      response := true
      questions := [q]
      answers := [{ name := ls, type := 1, class_ := 1, ttl := 32, data := bytes32 addr }]
      authority := []
      additional := [] } := by
    rw [message, if_neg (by omega), hcount1, hcount2, hcount3, hcount4]
    simp only [many, hq, hrecord, Option.bind_some, Option.map_some]
    rw [if_pos hsize.symm, hid, decide_eq_true hqr]
  exact ⟨_, q, _, len, hmessage, rfl, rfl, rfl, hq,
    (response_slice payload len addr (by omega) hlen).symm, rfl, hqname.symm, rfl, rfl, rfl, rfl⟩

/-- The callback answers a question that it parses with the address of a name it knows, if
there is a pbuf. Everything else is only freed. -/
theorem udpRecvProc_cases (queryProc : List UInt8 → Option UInt32) (query : DnsQuery)
    (d : Datagram) :
    let r := parseNextQuery (d.payload.drop DnsHeader.size)
      (d.payload.length - DnsHeader.size) query
    let len := r.1.toNat + DnsHeader.size
    let asked := DnsHeader.size < d.payload.length ∧ DnsHeader.qr d.payload = false ∧
      DnsHeader.nRecord d.payload 0 = 1 ∧ ¬ r.1 < 0
    let calls := (udpRecvProc queryProc query d).2
    (∃ addr, asked ∧ queryProc (cString r.2.name) = some addr ∧
      calls = if d.alloc then [.alloc (len + dnsAnswerSize) true,
          .sendto (response d.payload len addr).bytes d.port, .free .own, .free .arg]
        else [.alloc (len + dnsAnswerSize) false, .free .arg]) ∨
    ¬(asked ∧ ∃ addr, queryProc (cString r.2.name) = some addr) ∧ calls = [.free .arg] := by
  intro r len asked calls
  unfold calls udpRecvProc
  split
  · rename_i hshort
    exact Or.inr ⟨fun h => absurd h.1.1 (Nat.not_lt.mpr hshort), rfl⟩
  rename_i hlong
  split
  · rename_i hqr
    exact Or.inr ⟨fun h => absurd h.1.2.1 (by simp [hqr]), rfl⟩
  rename_i hqr
  split
  · rename_i hone
    exact Or.inr ⟨fun h => absurd h.1.2.2.1 hone, rfl⟩
  rename_i hone
  simp only
  split
  · rename_i hneg
    exact Or.inr ⟨fun h => h.1.2.2.2 hneg, rfl⟩
  rename_i hok
  have hasked : asked :=
    ⟨Nat.lt_of_not_le hlong, Bool.of_not_eq_true hqr, not_not.mp hone, hok⟩
  split
  · rename_i hname
    exact Or.inr ⟨fun ⟨_, addr, haddr⟩ => by simp [r, hname] at haddr, rfl⟩
  · rename_i addr hname
    refine Or.inl ⟨addr, hasked, hname, ?_⟩
    split <;> rfl

theorem reply_iff (queryProc : List UInt8 → Option UInt32) (query : DnsQuery) (d : Datagram)
    (reply : List UInt8) :
    let r := parseNextQuery (d.payload.drop DnsHeader.size)
      (d.payload.length - DnsHeader.size) query
    reply ∈ datagrams (udpRecvProc queryProc query d).2 ↔
      DnsHeader.size < d.payload.length ∧ DnsHeader.qr d.payload = false ∧
        DnsHeader.nRecord d.payload 0 = 1 ∧ ¬ r.1 < 0 ∧ d.alloc = true ∧
        ∃ addr, queryProc (cString r.2.name) = some addr ∧
          reply = (response d.payload (r.1.toNat + DnsHeader.size) addr).bytes := by
  intro r
  rcases udpRecvProc_cases queryProc query d with
    ⟨addr, ⟨hlong, hqr, hone, hok⟩, hname, hcalls⟩ | ⟨hnot, hcalls⟩
  · rw [hcalls]
    cases halloc : d.alloc with
    | false => simp [datagrams]
    | true =>
      simp only [datagrams, if_true, hlong, hqr, hone, hname, r]
      simp [hok]
  · rw [hcalls]
    constructor
    · intro hreply
      simp [datagrams] at hreply
    · rintro ⟨hlong, hqr, hone, hok, -, addr, hname, -⟩
      exact absurd ⟨⟨hlong, hqr, hone, hok⟩, addr, hname⟩ hnot

/-- Every reply to a datagram answers the name in it, and is a good message exactly when
the query was clean. -/
theorem reply_wellFormed_iff (queryProc : List UInt8 → Option UInt32) (query : DnsQuery)
    (d : Datagram) (reply : List UInt8)
    (h : reply ∈ datagrams (udpRecvProc queryProc query d).2) :
    ∃ ls addr, labels (d.payload.drop DnsHeader.size) = some ls ∧
      queryProc ((dotted ls).takeWhile (· ≠ 0)) = some addr ∧
      (WellFormed d.payload reply addr ↔ Clean d.payload) := by
  obtain ⟨-, -, hone, hok, -, addr, haddr, hreply⟩ := (reply_iff queryProc query d reply).mp h
  obtain ⟨n, ls, rest, hn, hparsed⟩ := parseNextQuery_ok (d.payload.drop DnsHeader.size)
    (d.payload.length - DnsHeader.size) query (by simp) hok
  have hcount := hparsed.count
  have hsize := hparsed.size
  have h12 : DnsHeader.size = 12 := rfl
  refine ⟨ls, addr, labels_question hparsed.lengths hparsed.wire, ?_, ?_⟩
  · rw [← hparsed.name]
    exact haddr
  · rw [hreply, hn, Int.toNat_natCast]
    exact ⟨wellFormed_clean d.payload _ addr addr (by omega) ls rest hparsed.lengths
        hparsed.wire (by omega),
      clean_wellFormed d.payload _ addr (by omega) ls rest hparsed.lengths hparsed.wire
        (by omega) hone⟩

/-! ## Queries of a host -/

/-- `dns_query_proc` of `app.c`, for `run.stm` and `www.run.stm` -/
def dnsQueryProc (ipaddr : UInt32) (name : List UInt8) : Option UInt32 :=
  let runStm := [0x72, 0x75, 0x6E, 0x2E, 0x73, 0x74, 0x6D]
  if name = runStm ∨ name = [0x77, 0x77, 0x77, 0x2E] ++ runStm then some ipaddr else none

def hostQuery (ls : List (List UInt8)) (additional : UInt8) (records : List UInt8) : List UInt8 :=
  [0x12, 0x34, 1, 0, 0, 1, 0, 0, 0, 0, 0, additional] ++ encode ls ++ [0, 1, 0, 1] ++ records

def runStm : List (List UInt8) := [[0x72, 0x75, 0x6E], [0x73, 0x74, 0x6D]]

def optRecord : List UInt8 := [0, 0, 41, 16, 0, 0, 0, 0, 0, 0, 0]

/-- A query with an OPT record, and one with a label of 64 bytes, get a bad reply. -/
theorem reply_malformed :
    (∃ reply ∈ datagrams (udpRecvProc (dnsQueryProc 0x0107A8C0) .zero
        { payload := hostQuery runStm 1 optRecord, port := 53, alloc := true }).2,
      ∀ addr, ¬WellFormed (hostQuery runStm 1 optRecord) reply addr) ∧
    ∃ reply ∈ datagrams (udpRecvProc (fun _ => some 0x0107A8C0) .zero
        { payload := hostQuery [List.replicate 64 0x61] 0 [], port := 53, alloc := true }).2,
      ∀ addr, ¬WellFormed (hostQuery [List.replicate 64 0x61] 0 []) reply addr := by
  refine ⟨⟨(response (hostQuery runStm 1 optRecord) 25 0x0107A8C0).bytes, by decide +kernel, ?_⟩,
    (response (hostQuery [List.replicate 64 0x61] 0 []) 82 0x0107A8C0).bytes, by decide +kernel, ?_⟩
  · rintro addr h
    have hclean := wellFormed_clean _ 25 _ addr (by decide) runStm ([0, 1, 0, 1] ++ optRecord)
      (by decide) rfl rfl h
    exact absurd hclean.additional (by decide)
  · rintro addr h
    have hclean := wellFormed_clean _ 82 _ addr (by decide) [List.replicate 64 0x61] [0, 1, 0, 1]
      (by decide) rfl rfl h
    have hlabels := labels_encode [List.replicate 64 0x61] [0, 1, 0, 1] (by decide)
    exact absurd (hclean.short _ hlabels (List.replicate 64 0x61) List.mem_cons_self) (by decide)

theorem reply_wellFormed_iff_runStm :
    ∃ ls addr, labels ((hostQuery runStm 0 []).drop DnsHeader.size) = some ls ∧
      dnsQueryProc 0x0107A8C0 ((dotted ls).takeWhile (· ≠ 0)) = some addr ∧
      (WellFormed (hostQuery runStm 0 []) (response (hostQuery runStm 0 []) 25 0x0107A8C0).bytes
        addr ↔ Clean (hostQuery runStm 0 [])) :=
  reply_wellFormed_iff (dnsQueryProc 0x0107A8C0) .zero
    { payload := hostQuery runStm 0 [], port := 53, alloc := true } _ (by decide +kernel)

end Lrndis.Dns
