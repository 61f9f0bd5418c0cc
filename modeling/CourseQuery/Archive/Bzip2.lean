import CourseQuery.Archive.Bzip2.Spans
import CourseQuery.Archive.Bzip2.Symbols

/-!
# Data compressed by bzip2

Data compressed by bzip2 is a sequence of bits, greatest bit of each byte first, in blocks that were
sorted. A block is the last column of the sorted rotations of its bytes; together with the place of
the row that was not rotated it gives them back. In these bytes four equal ones in a row are
followed by the number of further repetitions. Every block has its checksum and so has the whole.

`decompress?` gives the bytes that the data stands for and nothing when the data breaks the format;
what follows the end is not looked at.
-/

set_option autoImplicit false

namespace CourseQuery.Bzip2

/-- The generator polynomial of the checksums. -/
def polynomial : UInt32 := 0x04C11DB7

/-- Shifts one bit out of the register of a checksum. -/
def shift (register : UInt32) : UInt32 :=
  if 0x80000000 ≤ register then (register <<< 1) ^^^ polynomial else register <<< 1

/-- Shifts a number of bits out of the register of a checksum. -/
def shifts : Nat → UInt32 → UInt32
  | 0, register => register
  | n + 1, register => shifts n (shift register)

/-- Takes one byte into the register of a checksum. -/
def feed (register : UInt32) (b : UInt8) : UInt32 :=
  shifts 8 (register ^^^ (b.toUInt32 <<< 24))

/-- The checksum of a run of bytes. -/
def checksumOf (bytes : Array UInt8) : UInt32 :=
  bytes.foldl feed 0xFFFFFFFF ^^^ 0xFFFFFFFF

/-- Follows the rows of a block from a place on. A row has its first byte and the place of the row
that begins behind this byte. -/
def follow (rows : Array (UInt8 × Nat)) :
    (count place : Nat) → (bytes : Array UInt8) → Array UInt8
  | 0, _, bytes => bytes
  | count + 1, place, bytes =>
    match rows[place]? with
    | none => bytes
    | some (b, next) => follow rows count next (bytes.push b)

/-- The bytes whose sorted rotations have the given last column, and which are the row at the place
`origin`. Sorting the column gives the first one, equal bytes keeping their order. -/
def unsort (column : Array UInt8) (origin : Nat) : Array UInt8 :=
  let rows := (column.toList.zipIdx.mergeSort fun a b => decide (a.1 ≤ b.1)).toArray
  follow rows column.size origin #[]

/-- Spells out repetitions. `last` is the byte at hand and `row` how often it stands in a row so
far; after four in a row comes the number of the others. -/
def spellOut? : (last : UInt8) → (row : Nat) → Bytes → (output : Array UInt8) → Option (Array UInt8)
  | _, row, [], output => if row = 4 then none else some output
  | last, row, b :: rest, output =>
    if row = 4 then spellOut? last 0 rest (output ++ Array.replicate b.toNat last)
    else spellOut? b (if b = last then row + 1 else 1) rest (output.push b)

/-- A block: its content and the checksum of it. -/
structure Block where
  checksum : UInt32
  content : Array UInt8

/-- Reads a block of at most `limit` bytes. -/
def Block.read? (limit : Nat) (bits : Bits) : Option (Block × Bits) := do
  let (stated, bits) ← bits.takeHigh? 32
  let (disturbed, bits) ← bits.takeHigh? 1
  let (origin, bits) ← bits.takeHigh? 24
  let (column, bits) ← lastColumn? limit bits
  if column.size ≤ origin then none
  let bytes := unsort column origin
  let bytes := if disturbed = 1 then settle bytes else bytes
  let content ← spellOut? 0 0 bytes.toList #[]
  if (checksumOf content).toNat = stated then some (⟨checksumOf content, content⟩, bits) else none

/-- The mark before a block. -/
def blockMark : Nat := 0x314159265359

/-- The mark before the checksum of the whole. -/
def endMark : Nat := 0x177245385090

/-- The checksum of the whole after one more block. -/
def join (whole : UInt32) (block : Block) : UInt32 :=
  ((whole <<< 1) ||| (whole >>> 31)) ^^^ block.checksum

/-- Reads blocks up to the end. Every block takes bits, so their number is fuel enough. -/
def blocks? (limit : Nat) :
    (fuel : Nat) → (whole : UInt32) → (output : Array UInt8) → Bits → Option (Array UInt8)
  | 0, _, _, _ => none
  | fuel + 1, whole, output, bits => do
    let (mark, bits) ← bits.takeHigh? 48
    if mark = blockMark then
      let (block, bits) ← Block.read? limit bits
      blocks? limit fuel (join whole block) (output ++ block.content) bits
    else if mark = endMark then
      let (stated, _) ← bits.takeHigh? 32
      if whole.toNat = stated then some output else none
    else none

/-- The bytes that data compressed by bzip2 stands for. The data begins with three letters and the
greatest size of a block, a digit for the number of hundred thousands. -/
def decompress? : Bytes → Option Bytes
  | 0x42 :: 0x5A :: 0x68 :: level :: rest =>
    if 0x31 ≤ level ∧ level ≤ 0x39 then
      let limit := (level.toNat - 0x30) * 100000
      let bits := Bits.highFirst rest
      (blocks? limit (bits.length + 1) 0 #[] bits).map Array.toList
    else none
  | _ => none

end CourseQuery.Bzip2
