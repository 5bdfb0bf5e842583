import Lrndis.Lib.Buffer

/-!
# Accesses within bounds

Reads from the first `size` bytes of some memory, and writes to a buffer. An access that
leaves them has no result.
-/

namespace Checked

open Mem

variable {n : Nat} {data : List UInt8} {size off : Nat} {b : Buffer n} {src : List UInt8}

def readByte (data : List UInt8) (size off : Nat) : Option UInt8 :=
  if off < size then some (byteAt data off) else none

def readWord16 (data : List UInt8) (size off : Nat) : Option UInt16 :=
  if off + 2 ≤ size then some (word16At data off) else none

def readWord32 (data : List UInt8) (size off : Nat) : Option UInt32 :=
  if off + 4 ≤ size then some (word32At data off) else none

def read (data : List UInt8) (size off len : Nat) : Option (List UInt8) :=
  if off + len ≤ size then some (slice data off len) else none

def write (b : Buffer n) (off : Nat) (src : List UInt8) : Option (Buffer n) :=
  if off + src.length ≤ n then some (b.write off src) else none

theorem readByte_eq (h : off < size) : readByte data size off = some (byteAt data off) := if_pos h

theorem readWord16_eq (h : off + 2 ≤ size) : readWord16 data size off = some (word16At data off) :=
  if_pos h

theorem readWord32_eq (h : off + 4 ≤ size) : readWord32 data size off = some (word32At data off) :=
  if_pos h

theorem read_eq {len : Nat} (h : off + len ≤ size) :
    read data size off len = some (slice data off len) := if_pos h

theorem write_eq (h : off + src.length ≤ n) : write b off src = some (b.write off src) := if_pos h

end Checked
