import Lrndis.Dns.Code
import Lrndis.Lib.DnsFormat

/-!
# `parse_next_query` reads an encoded name

What it accepts is a list of labels, and `name` then holds them with dots in between.
-/

namespace Lrndis.Dns

open Mem DnsFormat

def dottedRest (ls : List (List UInt8)) : List UInt8 := ls.flatMap fun l => 0x2E :: l

def dotted : List (List UInt8) → List UInt8
  | [] => []
  | l :: ls => l ++ dottedRest ls

structure Walked (data : List UInt8) (c c' : Cursor) (ls : List (List UInt8)) : Prop where
  lengths : ∀ l ∈ ls, 1 ≤ l.length ∧ l.length < dnsMaxHostNameLen
  wire : data.drop c.ptr = encode ls ++ data.drop c'.ptr
  ptr : c'.ptr = c.ptr + (encode ls).length
  size : c'.size + (encode ls).length = c.size
  room : c'.len < dnsMaxHostNameLen
  name : c'.name.bytes.take c'.len =
    c.name.bytes.take c.len ++ if c.lables > 0 then dottedRest ls else dotted ls

theorem dot_spec (c : Cursor) (h : c.len < dnsMaxHostNameLen) :
    c.dot.len ≤ dnsMaxHostNameLen ∧
      c.dot.name.bytes.take c.dot.len =
        c.name.bytes.take c.len ++ if c.lables > 0 then [0x2E] else [] := by
  unfold Cursor.dot
  split
  · exact ⟨h, Buffer.take_setByte _ _ _ h⟩
  · exact ⟨Nat.le_of_lt h, by simp⟩

def Cursor.next (data : List UInt8) (c : Cursor) (n : Nat) : Cursor where
  name := c.dot.name.write c.dot.len (slice data (c.ptr + 1) n)
  ptr := c.ptr + 1 + n
  size := c.size - 1 - n
  len := c.dot.len + n
  lables := c.lables + 1

/-- One round: the label at the cursor goes to the name, and the rest is up to the rounds
after it. -/
theorem walked_cons (data : List UInt8) (c c' : Cursor) (ls : List (List UInt8)) (l : List UInt8)
    (hl : l = slice data (c.ptr + 1) (byteAt data c.ptr).toNat)
    (hpos : (byteAt data c.ptr).toNat ≠ 0) (hfits : (byteAt data c.ptr).toNat ≤ c.size - 1)
    (hroom : c.dot.len + (byteAt data c.ptr).toNat < dnsMaxHostNameLen)
    (hsize : c.ptr + c.size ≤ data.length) (hne : c.size ≠ 0) (hlen : c.len < dnsMaxHostNameLen)
    (h : Walked data (c.next data (byteAt data c.ptr).toNat) c' ls) :
    Walked data c c' (l :: ls) := by
  have hk : l.length = (byteAt data c.ptr).toNat := by
    rw [hl, slice_length _ _ _ (by omega)]
  have hcode := length_encode_cons l ls
  obtain ⟨hlengths, hwire, hptr, hsize', hroom', hname⟩ := h
  simp only [Cursor.next, ← hl] at hwire hptr hsize' hname
  refine ⟨?_, ?_, ?_, ?_, hroom', ?_⟩
  · intro l' hl'
    rcases List.mem_cons.mp hl' with rfl | hl'
    · omega
    · exact hlengths l' hl'
  · have hcons : data.drop c.ptr = byteAt data c.ptr :: l ++ data.drop (c.ptr + 1 + l.length) := by
      rw [drop_eq_byteAt_cons _ _ (by omega), drop_eq_slice_append _ _ (byteAt data c.ptr).toNat,
        ← hl, hk]
      rfl
    rw [hcons, hk, hwire, encode_cons, hk, UInt8.ofNat_toNat]
    simp
  · omega
  · omega
  · obtain ⟨-, hdot⟩ := dot_spec c hlen
    rw [hname, ← hk, Buffer.take_write _ _ _ (by omega), hdot, if_pos (Nat.succ_pos _)]
    split
    · simp [dottedRest]
    · simp [dotted]

theorem parseLabels_ok (data : List UInt8) (c c' : Cursor) (h : parseLabels data c = .ok c')
    (hsize : c.ptr + c.size ≤ data.length) (hlen : c.len < dnsMaxHostNameLen) :
    ∃ ls, Walked data c c' ls := by
  fun_induction parseLabels data c with
  | case1 => simp at h
  | case2 c hne lableLen ptr size hzero =>
    -- The zero byte after the labels.
    rw [← Except.ok.inj h]
    have hb : byteAt data c.ptr = 0 := UInt8.toNat_inj.mp hzero
    refine ⟨[], by simp, ?_, by simp [encode, ptr], ?_, hlen, ?_⟩
    · rw [drop_eq_byteAt_cons _ _ (by omega), hb]
      rfl
    · simp only [encode, List.flatMap_nil, List.nil_append, List.length_singleton, size]
      omega
    · split <;> simp [dottedRest, dotted]
  | case3 => simp at h
  | case4 => simp at h
  | case5 => simp at h
  | case6 c hne lableLen ptr size hpos hdot d hfits hroom ih =>
    obtain ⟨ls, hls⟩ := ih h (by simp only [lableLen, ptr, size] at *; omega)
      (show d.len + lableLen < dnsMaxHostNameLen by omega)
    exact ⟨_, walked_cons data c c' ls _ rfl hpos (by simp only [lableLen, size] at hfits; omega)
      (by simp only [d, lableLen] at hroom; omega) hsize hne hlen hls⟩

theorem cString_setByte (b : Buffer dnsMaxHostNameLen) (len : Nat) (h : len < dnsMaxHostNameLen) :
    cString (b.setByte len 0) = (b.bytes.take len).takeWhile (· ≠ 0) := by
  have hsplit := List.take_append_drop (len + 1) (b.setByte len 0).bytes
  rw [Buffer.take_setByte _ _ _ h] at hsplit
  rw [cString, ← hsplit, List.append_assoc, List.takeWhile_append]
  split
  · rename_i hfull
    rw [(List.takeWhile_prefix _).eq_of_length hfull]
    simp
  · rfl

theorem parseLabels_error (data : List UInt8) (c : Cursor) (e : Int)
    (name : Buffer dnsMaxHostNameLen) (h : parseLabels data c = .error (e, name)) : e < 0 := by
  fun_induction parseLabels data c with
  | case2 => simp at h
  | case6 c hne lableLen ptr size hpos hdot d hfits hroom ih => exact ih h
  | _ =>
    simp only [Except.error.injEq, Prod.mk.injEq] at h
    omega

/-- What `parse_next_query` accepts, and what it says of it. -/
structure Parsed (data : List UInt8) (size : Nat) (query : DnsQuery) (n : Nat)
    (ls : List (List UInt8)) (rest : List UInt8) : Prop where
  lengths : ∀ l ∈ ls, 1 ≤ l.length ∧ l.length < dnsMaxHostNameLen
  wire : data = encode ls ++ rest
  count : n = (encode ls).length + 4
  size : n ≤ size
  name : cString query.name = (dotted ls).takeWhile (· ≠ 0)
  type : query.type = word16At rest 0
  class_ : query.class_ = word16At rest 2

theorem parseNextQuery_ok (data : List UInt8) (size : Nat) (query : DnsQuery)
    (hsize : size ≤ data.length) (h : ¬ (parseNextQuery data size query).1 < 0) :
    ∃ n ls rest, (parseNextQuery data size query).1 = (n : Nat) ∧
      Parsed data size (parseNextQuery data size query).2 n ls rest := by
  unfold parseNextQuery at h ⊢
  cases hp : parseLabels data
      { name := query.name, ptr := 0, size := size, len := 0, lables := 0 } with
  | error e =>
    rw [hp] at h
    exact absurd (parseLabels_error data _ e.1 e.2 hp) h
  | ok c =>
    obtain ⟨ls, hlengths, hwire, hptr, hrest, hroom, hname⟩ :=
      parseLabels_ok data _ c hp (by simpa using hsize) (show 0 < dnsMaxHostNameLen by decide)
    rw [hp] at h
    simp only [Nat.zero_add, List.drop_zero] at hptr hwire
    simp only [List.take_zero, List.nil_append, gt_iff_lt, Nat.lt_irrefl, if_false] at hname
    simp only at h hrest ⊢
    split at h
    · exact absurd h (by simp)
    · rename_i hfour
      rw [if_neg hfour]
      refine ⟨c.ptr + 4, ls, data.drop c.ptr, rfl, hlengths, hwire, by omega, by omega, ?_, ?_, ?_⟩
      · rw [cString_setByte _ _ hroom, hname]
      · exact (word16At_drop data c.ptr 0).symm
      · exact (word16At_drop data c.ptr 2).symm

end Lrndis.Dns
