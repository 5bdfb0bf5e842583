import Lrndis.Dns.Reply
import Lrndis.Lib.Checked

/-!
# The accesses of `parse_next_query`

The parser once more, with a check before each access to the question and to `name`. No
check ever fails.
-/

namespace Lrndis.Dns

open Mem DnsFormat

def Cursor.dotChecked (c : Cursor) : Option Cursor :=
  if c.lables > 0 then
    (Checked.write c.name c.len [0x2E]).map fun name => { c with name := name, len := c.len + 1 }
  else some c

/-- `parseLabels`. The question is the first `limit` bytes of `data`. -/
def parseLabelsChecked (data : List UInt8) (limit : Nat) (c : Cursor) :
    Option (Except (Int × Buffer dnsMaxHostNameLen) Cursor) :=
  if c.size = 0 then some (.error (-1, c.name))
  else
    (Checked.readByte data limit c.ptr).bind fun b =>
      let lableLen := b.toNat
      let ptr := c.ptr + 1
      let size := c.size - 1
      if lableLen = 0 then some (.ok { c with ptr := ptr, size := size })
      else if c.lables > 0 ∧ c.len = dnsMaxHostNameLen then some (.error (-2, c.name))
      else
        c.dotChecked.bind fun d =>
          if lableLen > size then some (.error (-1, d.name))
          else if d.len + lableLen ≥ dnsMaxHostNameLen then some (.error (-2, d.name))
          else
            (Checked.read data limit ptr lableLen).bind fun label =>
            (Checked.write d.name d.len label).bind fun name =>
              parseLabelsChecked data limit {
                name := name
                ptr := ptr + lableLen
                size := size - lableLen
                len := d.len + lableLen
                lables := c.lables + 1 }
termination_by c.size

def parseNextQueryChecked (data : List UInt8) (size : Nat) (query : DnsQuery) :
    Option (Int × DnsQuery) :=
  (parseLabelsChecked data size
    { name := query.name, ptr := 0, size := size, len := 0, lables := 0 }).bind fun
  | .error (e, name) => some (e, { query with name := name })
  | .ok c =>
    if c.size < 4 then some (-1, { query with name := c.name })
    else
      (Checked.write c.name c.len [0]).bind fun name =>
      (Checked.readWord16 data size c.ptr).bind fun type =>
      (Checked.readWord16 data size (c.ptr + 2)).bind fun class_ =>
        some (((c.ptr + 4 : Nat) : Int), { name := name, type := type, class_ := class_ })

/-! ## No check fails -/

theorem dotChecked_eq (c : Cursor) (h : c.len < dnsMaxHostNameLen) :
    c.dotChecked = some c.dot := by
  unfold Cursor.dotChecked Cursor.dot
  split
  · rw [Checked.write_eq (Nat.succ_le_of_lt h)]
    rfl
  · rfl

/-- The three counters: the question is used up from both sides, and there is a place for
the NUL. -/
theorem parseLabelsChecked_eq (data : List UInt8) (limit : Nat) (c : Cursor)
    (hsize : c.ptr + c.size = limit) (hlimit : limit ≤ data.length)
    (hlen : c.len < dnsMaxHostNameLen) :
    parseLabelsChecked data limit c = some (parseLabels data c) := by
  fun_induction parseLabels data c with
  | case1 c hzero => rw [parseLabelsChecked, if_pos hzero]
  | case2 c hne lableLen ptr size hzero =>
    rw [parseLabelsChecked, if_neg hne, Checked.readByte_eq (by omega), Option.bind_some]
    simp only
    rw [if_pos hzero]
  | case3 c hne lableLen hpos hfull =>
    rw [parseLabelsChecked, if_neg hne, Checked.readByte_eq (by omega), Option.bind_some]
    simp only
    rw [if_neg hpos, if_pos hfull]
  | case4 c hne lableLen size hpos hdot d hcut =>
    rw [parseLabelsChecked, if_neg hne, Checked.readByte_eq (by omega), Option.bind_some]
    simp only
    rw [if_neg hpos, if_neg hdot, dotChecked_eq c hlen, Option.bind_some, if_pos hcut]
  | case5 c hne lableLen size hpos hdot d hfits hfull =>
    rw [parseLabelsChecked, if_neg hne, Checked.readByte_eq (by omega), Option.bind_some]
    simp only
    rw [if_neg hpos, if_neg hdot, dotChecked_eq c hlen, Option.bind_some, if_neg hfits,
      if_pos hfull]
  | case6 c hne lableLen ptr size hpos hdot d hfits hroom ih =>
    -- The one round that goes on: both the label and its place are in bounds.
    have hlabel : (slice data ptr lableLen).length = lableLen :=
      slice_length _ _ _ (by simp only [ptr, size] at *; omega)
    have hplace : c.dot.len + (slice data ptr lableLen).length ≤ dnsMaxHostNameLen := by
      rw [hlabel]
      exact Nat.le_of_lt (Nat.lt_of_not_le hroom)
    rw [parseLabelsChecked, if_neg hne, Checked.readByte_eq (by omega), Option.bind_some]
    simp only
    rw [if_neg hpos, if_neg hdot, dotChecked_eq c hlen, Option.bind_some, if_neg hfits,
      if_neg hroom, Checked.read_eq (by simp only [ptr, size] at *; omega), Option.bind_some,
      Checked.write_eq hplace, Option.bind_some]
    exact ih (show ptr + lableLen + (size - lableLen) = limit by omega)
      (show d.len + lableLen < dnsMaxHostNameLen by omega)

theorem parseNextQueryChecked_eq (data : List UInt8) (size : Nat) (query : DnsQuery)
    (hsize : size ≤ data.length) :
    parseNextQueryChecked data size query = some (parseNextQuery data size query) := by
  unfold parseNextQueryChecked parseNextQuery
  rw [parseLabelsChecked_eq data size _ (Nat.zero_add size) hsize
    (show 0 < dnsMaxHostNameLen by decide), Option.bind_some]
  cases hp : parseLabels data
      { name := query.name, ptr := 0, size := size, len := 0, lables := 0 } with
  | error e => rfl
  | ok c =>
    obtain ⟨ls, hwalked⟩ := parseLabels_ok data _ c hp (by simpa using hsize)
      (show 0 < dnsMaxHostNameLen by decide)
    have hptr := hwalked.ptr
    have hrest := hwalked.size
    simp only at hptr hrest ⊢
    split
    · rfl
    · rw [Checked.write_eq (Nat.succ_le_of_lt hwalked.room), Option.bind_some,
        Checked.readWord16_eq (by omega), Option.bind_some, Checked.readWord16_eq (by omega)]
      rfl

/-! ## The result -/

theorem parseNextQuery_bounds {data : List UInt8} {size : Nat} {query : DnsQuery}
    (hsize : size ≤ data.length) (hok : 0 ≤ (parseNextQuery data size query).1) :
    5 ≤ (parseNextQuery data size query).1 ∧ (parseNextQuery data size query).1 ≤ size := by
  obtain ⟨n, ls, rest, hn, hparsed⟩ := parseNextQuery_ok data size query hsize (Int.not_lt.mpr hok)
  have hcount := hparsed.count
  have hle := hparsed.size
  have hpos := encode_length_pos ls
  omega

theorem parseNextQuery_nul {data : List UInt8} {size : Nat} {query : DnsQuery}
    (hsize : size ≤ data.length) (hok : 0 ≤ (parseNextQuery data size query).1) :
    ∃ k < dnsMaxHostNameLen, (parseNextQuery data size query).2.name.byte k = 0 := by
  unfold parseNextQuery at hok ⊢
  cases hp : parseLabels data
      { name := query.name, ptr := 0, size := size, len := 0, lables := 0 } with
  | error e =>
    rw [hp] at hok
    have hneg := parseLabels_error data _ e.1 e.2 hp
    simp only at hok
    omega
  | ok c =>
    rw [hp] at hok
    obtain ⟨ls, hwalked⟩ := parseLabels_ok data _ c hp (by simpa using hsize)
      (show 0 < dnsMaxHostNameLen by decide)
    simp only at hok ⊢
    split
    · rename_i hcut
      rw [if_pos hcut] at hok
      exact absurd hok (show ¬ (0 : Int) ≤ -1 by decide)
    · exact ⟨c.len, hwalked.room, c.name.byte_setByte_self c.len 0 hwalked.room⟩

theorem reply_copy (queryProc : List UInt8 → Option UInt32) (query : DnsQuery) (d : Datagram)
    (len : Nat) (ok : Bool)
    (h : .alloc (len + dnsAnswerSize) ok ∈ (udpRecvProc queryProc query d).2) :
    len ≤ d.payload.length := by
  rcases udpRecvProc_cases queryProc query d with
    ⟨addr, ⟨hlong, -, -, hok⟩, -, hcalls⟩ | ⟨-, hcalls⟩
  · have hbounds := (parseNextQuery_bounds (by simp) (Int.not_lt.mp hok)).2
    have hlen : len = (parseNextQuery (d.payload.drop DnsHeader.size)
        (d.payload.length - DnsHeader.size) query).1.toNat + DnsHeader.size := by
      rw [hcalls] at h
      split at h
      · simp at h
        omega
      · simp at h
        omega
    omega
  · rw [hcalls] at h
    simp at h

/-- The parser reads only what it was given and writes only to `name`, which it leaves with
a NUL. The size of the question is right, and so the reply copies only what was received. -/
theorem parse_in_bounds (data : List UInt8) (size : Nat) (query : DnsQuery)
    (hsize : size ≤ data.length) :
    let r := parseNextQuery data size query
    parseNextQueryChecked data size query = some r ∧
      (0 ≤ r.1 → (5 ≤ r.1 ∧ r.1 ≤ size) ∧ ∃ k < 128, r.2.name.byte k = 0) ∧
      ∀ queryProc d len ok, .alloc (len + dnsAnswerSize) ok ∈ (udpRecvProc queryProc query d).2 →
        len ≤ d.payload.length := by
  intro r
  refine ⟨parseNextQueryChecked_eq data size query hsize, fun hok => ⟨?_, ?_⟩, ?_⟩
  · exact parseNextQuery_bounds hsize hok
  · exact parseNextQuery_nul hsize hok
  · exact fun queryProc d len ok h => reply_copy queryProc query d len ok h

theorem parse_in_bounds_labels :
    let data : List UInt8 := [1, 97, 1, 98, 0, 0, 1, 0, 1]
    let r := parseNextQuery data 9 .zero
    parseNextQueryChecked data 9 .zero = some r ∧ r.1 = 9 ∧ 5 ≤ r.1 ∧ r.1 ≤ 9 ∧
      (∃ k < 128, r.2.name.byte k = 0) ∧ r.2.name.bytes.take 4 = [97, 46, 98, 0] := by
  intro data r
  have hnine : r.1 = 9 := by decide +kernel
  obtain ⟨hchecked, hbounds, -⟩ := parse_in_bounds data 9 .zero (by decide)
  obtain ⟨⟨hle, hge⟩, hnul⟩ := hbounds (by decide +kernel)
  exact ⟨hchecked, hnine, hle, hge, hnul, by decide +kernel⟩

end Lrndis.Dns
