import CourseQuery.Bytes

/-!
# CRC-32

Stored datasets and archive entries carry the CRC-32 (IEEE) of their bytes. The register takes
in one byte at a time, least bit first: a bit is shifted out and, when it is set, the reversed
polynomial is added. Each step loses nothing, so a change of a single byte always shows.
-/

set_option autoImplicit false

namespace CourseQuery.Checksum

/-- The generator polynomial, its bits reversed. -/
def polynomial : UInt32 := 0xEDB88320

/-- Shifts one bit out of the register. -/
def shift (register : UInt32) : UInt32 :=
  if register % 2 = 1 then (register >>> 1) ^^^ polynomial else register >>> 1

/-- Shifts a number of bits out of the register. -/
def shifts : Nat → UInt32 → UInt32
  | 0, register => register
  | n + 1, register => shifts n (shift register)

/-- Takes one byte into the register. -/
def feed (register : UInt32) (b : UInt8) : UInt32 :=
  shifts 8 (register ^^^ b.toUInt32)

/-- The CRC-32 of a run of bytes. -/
def crc32 (bytes : Bytes) : UInt32 :=
  bytes.foldl feed 0xFFFFFFFF ^^^ 0xFFFFFFFF

end CourseQuery.Checksum
