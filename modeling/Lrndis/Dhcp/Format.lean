import Lrndis.Dhcp.Code
import Lrndis.Lib.Tlv

/-!
# The format of the options

A DHCP option is a code, a length and a value, but `DHCP_PAD` is one byte and `DHCP_END`
ends the list. `find_dhcp_option` reads both as options.
-/

namespace Lrndis.Dhcp

open Mem Tlv

def dhcpPad : UInt8 := 0
def dhcpMessagetype : UInt8 := 53

def dhcpGrammar : Grammar where
  pad := fun code => code = dhcpPad
  stop := fun code => code = dhcpEnd

theorem findFrom_eq (attrs : List UInt8) (size : Nat) (attr : UInt8) (i : Nat) :
    findFrom attrs size attr i =
      (walk plain attrs size i).find? fun p => byteAt attrs p = attr := by
  induction i using findFrom.induct attrs size attr with
  | case1 i hi hcut =>
    rw [findFrom, if_pos hi, if_pos hcut, walk_cut (fun _ => hcut) rfl]
    rfl
  | case2 i hi hfit hattr =>
    rw [findFrom, if_pos hi, if_neg hfit, if_pos hattr, walk_option (by omega) rfl rfl,
      List.find?_cons_of_pos (by simpa using hattr)]
  | case3 i hi hfit hattr ih =>
    have hstep : walk plain attrs size i =
        i :: walk plain attrs size (i + (byteAt attrs (i + 1)).toNat + 2) :=
      walk_option (by omega) rfl rfl
    rw [findFrom, if_pos hi, if_neg hfit, if_neg hattr, ih, hstep,
      List.find?_cons_of_neg (by simpa using hattr)]
  | case4 i hi =>
    rw [findFrom, if_neg hi, walk_cut (fun h => absurd h hi) rfl]
    rfl

theorem findDhcpOption_eq (attrs : List UInt8) (size : Nat) (attr : UInt8) :
    findDhcpOption attrs size attr = find plain attrs size attr := findFrom_eq attrs size attr 0

/-- `find_dhcp_option` finds what is there if the option stands before the first DHCP_PAD or
DHCP_END, or nothing behind that looks like it. -/
theorem findDhcpOption_right (attrs : List UInt8) (size : Nat) (attr : UInt8)
    (h : Clear dhcpGrammar attrs size attr) :
    findDhcpOption attrs size attr = find dhcpGrammar attrs size attr := by
  rw [findDhcpOption_eq]
  exact find_plain_eq h

theorem findDhcpOption_right_request :
    let attrs := [53, 1, 3, 50, 4, 192, 168, 7, 2, 255, 0, 0]
    findDhcpOption attrs 12 50 = find dhcpGrammar attrs 12 50 ∧
      find dhcpGrammar attrs 12 50 = some 3 ∧
      findDhcpOption attrs 12 12 = find dhcpGrammar attrs 12 12 ∧
      find dhcpGrammar attrs 12 12 = none := by
  intro attrs
  refine ⟨findDhcpOption_right attrs 12 50 ?_, ?_, findDhcpOption_right attrs 12 12 ?_, ?_⟩
  · decide +kernel
  · decide +kernel
  · decide +kernel
  · decide +kernel

/-- The code after a pad is taken for a length, and what is behind the end for options. -/
theorem findDhcpOption_misreads :
    (¬ ∀ attrs size attr, size ≤ attrs.length → attr ≠ dhcpPad → attr ≠ dhcpEnd →
      findDhcpOption attrs size attr = find dhcpGrammar attrs size attr) ∧
    findDhcpOption [0, 53, 1, 1] 4 53 = none ∧ find dhcpGrammar [0, 53, 1, 1] 4 53 = some 1 ∧
    findDhcpOption [255, 0, 53, 1, 1] 5 53 = some 2 ∧
    find dhcpGrammar [255, 0, 53, 1, 1] 5 53 = none := by
  have hmissed : findDhcpOption [0, 53, 1, 1] 4 53 = none := by decide +kernel
  have hthere : find dhcpGrammar [0, 53, 1, 1] 4 53 = some 1 := by decide +kernel
  refine ⟨fun h => ?_, hmissed, hthere, by decide +kernel, by decide +kernel⟩
  have hsame := h [0, 53, 1, 1] 4 53 (by decide) (by decide) (by decide)
  rw [hmissed, hthere] at hsame
  cases hsame

end Lrndis.Dhcp
