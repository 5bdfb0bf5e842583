import Lrndis.Dns.Encoded
import Lrndis.Dns.Reply

/-!
# Which questions are answered

Type and class of the question are parsed and then left alone, and the opcode is not looked
at. All three are up to the client.
-/

namespace Lrndis.Dns

open Mem DnsFormat

/-- `flags.opcode`, the four bits below `qr` -/
def DnsHeader.opcode (m : List UInt8) : UInt8 := byteAt m 2 >>> 3 &&& 0x0F

def qType (payload : List UInt8) (ls : List (List UInt8)) : UInt16 :=
  net16At payload (DnsHeader.size + (encode ls).length)

def qClass (payload : List UInt8) (ls : List (List UInt8)) : UInt16 :=
  net16At payload (DnsHeader.size + (encode ls).length + 2)

/-- A standard query for addresses: A or ANY, and IN or ANY. -/
def AsksAddress (payload : List UInt8) (ls : List (List UInt8)) : Prop :=
  DnsHeader.opcode payload = 0 ∧ (qType payload ls = 1 ∨ qType payload ls = 255) ∧
    (qClass payload ls = 1 ∨ qClass payload ls = 255)

structure OneQuestion (payload : List UInt8) (ls : List (List UInt8)) : Prop where
  query : DnsHeader.qr payload = false
  one : DnsHeader.nRecord payload 0 = 1
  name : labels (payload.drop DnsHeader.size) = some ls
  whole : DnsHeader.size + (encode ls).length + 4 ≤ payload.length

def Answers (reply : List UInt8) : Prop := ∃ addr, dnsAnswer addr <:+ reply

theorem response_answers (payload : List UInt8) (len : Nat) (addr : UInt32) :
    Answers (response payload len addr).bytes := by
  refine ⟨addr, ?_⟩
  rw [← response_drop payload len addr]
  exact List.drop_suffix _ _

theorem OneQuestion.parsed {payload : List UInt8} {ls : List (List UInt8)} (query : DnsQuery)
    (h : OneQuestion payload ls) (hroom : (dotted ls).length ≤ 127) :
    let r := parseNextQuery (payload.drop DnsHeader.size) (payload.length - DnsHeader.size) query
    ¬ r.1 < 0 ∧ cString r.2.name = (dotted ls).takeWhile (· ≠ 0) := by
  intro r
  obtain ⟨hls, rest, hwire⟩ := labels_sound h.name
  have hwhole := h.whole
  have hlength := congrArg List.length hwire
  rw [List.length_append, List.length_drop] at hlength
  have hok : ¬ r.1 < 0 := by
    have haccepts := (parse_accepts_iff query hls hwire (by omega)).mpr hroom
    rwa [List.length_drop] at haccepts
  obtain ⟨n, ls', rest', -, hparsed⟩ := parseNextQuery_ok _ _ query (by simp) hok
  have hsame : ls = ls' := labels_unique hls hparsed.lengths (hwire.symm.trans hparsed.wire)
  refine ⟨hok, ?_⟩
  rw [hsame]
  exact hparsed.name

theorem OneQuestion.of_parsed {payload : List UInt8} {query : DnsQuery}
    (hqr : DnsHeader.qr payload = false) (hone : DnsHeader.nRecord payload 0 = 1)
    (hlong : DnsHeader.size < payload.length)
    (hok : ¬ (parseNextQuery (payload.drop DnsHeader.size) (payload.length - DnsHeader.size)
      query).1 < 0) :
    ∃ ls, OneQuestion payload ls ∧ (dotted ls).length ≤ 127 := by
  obtain ⟨n, ls, rest, -, hparsed⟩ := parseNextQuery_ok _ _ query (by simp) hok
  have hwire := hparsed.wire
  have hcount := hparsed.count
  have hsize := hparsed.size
  have hname := labels_question hparsed.lengths hwire
  have hlength := congrArg List.length hwire
  rw [List.length_append, List.length_drop] at hlength
  refine ⟨ls, ⟨hqr, hone, hname, by omega⟩, ?_⟩
  rw [← parse_accepts_iff query (labels_sound hname).1 hwire (by omega), List.length_drop]
  exact hok

/-- What is answered is a standard query for addresses, exactly if the datagram is none
that asks for something else with a name that the server knows. -/
theorem answered_standard_iff (queryProc : List UInt8 → Option UInt32) (query : DnsQuery)
    (d : Datagram) :
    (∀ reply ∈ datagrams (udpRecvProc queryProc query d).2, Answers reply →
      ∃ ls, OneQuestion d.payload ls ∧ AsksAddress d.payload ls) ↔
    ∀ ls, OneQuestion d.payload ls → (dotted ls).length ≤ 127 →
      queryProc ((dotted ls).takeWhile (· ≠ 0)) ≠ none → d.alloc = true →
      AsksAddress d.payload ls := by
  constructor
  · intro h ls hone hroom hknown halloc
    obtain ⟨hok, hname⟩ := hone.parsed query hroom
    obtain ⟨addr, haddr⟩ := Option.ne_none_iff_exists'.mp hknown
    have hwhole := hone.whole
    have hreply := (reply_iff queryProc query d _).mpr ⟨by omega, hone.query, hone.one, hok, halloc,
      addr, by rw [hname]; exact haddr, rfl⟩
    obtain ⟨ls', hone', hasks⟩ := h _ hreply (response_answers ..)
    have hsame := hone.name
    rw [hone'.name] at hsame
    rwa [← Option.some.inj hsame]
  · intro h reply hreply _
    obtain ⟨hlong, hqr, hcount, hok, halloc, addr, haddr, -⟩ :=
      (reply_iff queryProc query d reply).mp hreply
    obtain ⟨ls, hone, hroom⟩ := OneQuestion.of_parsed hqr hcount hlong hok
    refine ⟨ls, hone, h ls hone hroom ?_ halloc⟩
    rw [← (hone.parsed query hroom).2, haddr]
    exact Option.some_ne_none addr

def askRunStm (flags type : UInt8) : List UInt8 :=
  [0x12, 0x34, flags, 0, 0, 1, 0, 0, 0, 0, 0, 0] ++ encode runStm ++ [0, type, 0, 1]

/-- A query for an AAAA record gets an A record, and so does one with the opcode STATUS. -/
theorem answered_other :
    (∃ reply ∈ datagrams (udpRecvProc (dnsQueryProc 0x0107A8C0) .zero
        { payload := askRunStm 0x01 28, port := 53, alloc := true }).2,
      Answers reply ∧
        ¬∃ ls, OneQuestion (askRunStm 0x01 28) ls ∧ AsksAddress (askRunStm 0x01 28) ls) ∧
    ∃ reply ∈ datagrams (udpRecvProc (dnsQueryProc 0x0107A8C0) .zero
        { payload := askRunStm 0x11 1, port := 53, alloc := true }).2,
      Answers reply ∧
        ¬∃ ls, OneQuestion (askRunStm 0x11 1) ls ∧ AsksAddress (askRunStm 0x11 1) ls := by
  have hnone : ∀ flags type, ¬AsksAddress (askRunStm flags type) runStm →
      ¬∃ ls, OneQuestion (askRunStm flags type) ls ∧ AsksAddress (askRunStm flags type) ls := by
    rintro flags type hnot ⟨ls, hone, hasks⟩
    have hname : labels ((askRunStm flags type).drop DnsHeader.size) = some runStm :=
      labels_encode runStm [0, type, 0, 1] (by decide)
    rw [hone.name] at hname
    exact hnot (Option.some.inj hname ▸ hasks)
  refine ⟨⟨(response (askRunStm 0x01 28) 25 0x0107A8C0).bytes, by decide +kernel,
      response_answers .., hnone _ _ ?_⟩,
    (response (askRunStm 0x11 1) 25 0x0107A8C0).bytes, by decide +kernel, response_answers ..,
    hnone _ _ ?_⟩
  · rintro ⟨-, htype, -⟩
    exact absurd htype (by decide)
  · rintro ⟨hopcode, -⟩
    exact absurd hopcode (by decide)

end Lrndis.Dns
