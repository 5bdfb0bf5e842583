import Lrndis.Dhcp.Code
import Lrndis.Lib.Checked

/-!
# The accesses of `find_dhcp_option`

The search once more, with a check before each access, and what the REQUEST branch reads of
its result. No check ever fails. `i` and `next` are ints, and nothing on the target is so
long that they could overflow.
-/

namespace Lrndis.Dhcp

open Mem

/-- `findFrom`. The options are the first `size` bytes of `attrs`. -/
def findFromChecked (attrs : List UInt8) (size : Nat) (attr : UInt8) (i : Nat) :
    Option (Option Nat) :=
  if i + 1 < size then
    (Checked.readByte attrs size (i + 1)).bind fun len =>
      if i + len.toNat + 2 > size then some none
      else
        (Checked.readByte attrs size i).bind fun code =>
          if code = attr then some (some i)
          else findFromChecked attrs size attr (i + len.toNat + 2)
  else some none
termination_by size - i

def findDhcpOptionChecked (attrs : List UInt8) (size : Nat) (attr : UInt8) : Option (Option Nat) :=
  findFromChecked attrs size attr 0

/-- `requestedAddr`: the reads of `ptr[1]` and of the address are from `dp_options`. -/
def requestedAddrChecked (data : List UInt8) : Option (Option UInt32) :=
  (findDhcpOptionChecked (options data) DhcpType.optionsSize dhcpIpaddress).bind fun
  | none => some none
  | some ptr =>
    (Checked.readByte (options data) DhcpType.optionsSize (ptr + 1)).bind fun len =>
      if len ≠ 4 then some none
      else (Checked.readWord32 (options data) DhcpType.optionsSize (ptr + 2)).map some

/-! ## No check fails -/

theorem findFromChecked_eq (attrs : List UInt8) (size : Nat) (attr : UInt8) (i : Nat) :
    findFromChecked attrs size attr i = some (findFrom attrs size attr i) := by
  fun_induction findFrom attrs size attr i with
  | case1 i hi hcut =>
    rw [findFromChecked, if_pos hi, Checked.readByte_eq hi, Option.bind_some, if_pos hcut]
  | case2 i hi hfits hattr =>
    rw [findFromChecked, if_pos hi, Checked.readByte_eq hi, Option.bind_some, if_neg hfits,
      Checked.readByte_eq (by omega), Option.bind_some, if_pos hattr]
  | case3 i hi hfits hattr ih =>
    rw [findFromChecked, if_pos hi, Checked.readByte_eq hi, Option.bind_some, if_neg hfits,
      Checked.readByte_eq (by omega), Option.bind_some, if_neg hattr]
    exact ih
  | case4 i hi => rw [findFromChecked, if_neg hi]

theorem findFrom_within (attrs : List UInt8) (size : Nat) (attr : UInt8) (i p : Nat)
    (h : findFrom attrs size attr i = some p) :
    byteAt attrs p = attr ∧ p + 1 < size ∧ p + 2 + (byteAt attrs (p + 1)).toNat ≤ size := by
  fun_induction findFrom attrs size attr i with
  | case1 => simp at h
  | case2 i hi hfits hattr =>
    obtain rfl := Option.some.inj h
    exact ⟨hattr, hi, by omega⟩
  | case3 i hi hfits hattr ih => exact ih h
  | case4 => simp at h

theorem requestedAddrChecked_eq (data : List UInt8) :
    requestedAddrChecked data = some (requestedAddr data) := by
  unfold requestedAddrChecked requestedAddr findDhcpOptionChecked findDhcpOption
  rw [findFromChecked_eq, Option.bind_some]
  cases hfound : findFrom (options data) DhcpType.optionsSize dhcpIpaddress 0 with
  | none => rfl
  | some ptr =>
    obtain ⟨-, hlen, hvalue⟩ := findFrom_within _ _ _ _ _ hfound
    simp only
    rw [Checked.readByte_eq hlen, Option.bind_some]
    by_cases hfour : byteAt (options data) (ptr + 1) = 4
    · have h4 : (4 : UInt8).toNat = 4 := rfl
      rw [hfour, h4] at hvalue
      rw [if_neg (not_not.mpr hfour), if_neg (not_not.mpr hfour),
        Checked.readWord32_eq (by omega)]
      rfl
    · rw [if_pos hfour, if_pos hfour]

/-- The search reads only what it was given, what it finds is in there as a whole, and so
is what the REQUEST branch reads of it. -/
theorem option_in_bounds (attrs : List UInt8) (size : Nat) (attr : UInt8) :
    findDhcpOptionChecked attrs size attr = some (findDhcpOption attrs size attr) ∧
    (∀ p, findDhcpOption attrs size attr = some p →
      byteAt attrs p = attr ∧ p + 1 < size ∧ p + 2 + (byteAt attrs (p + 1)).toNat ≤ size) ∧
    ∀ data, requestedAddrChecked data = some (requestedAddr data) :=
  ⟨findFromChecked_eq attrs size attr 0, findFrom_within attrs size attr 0,
    requestedAddrChecked_eq⟩

end Lrndis.Dhcp
