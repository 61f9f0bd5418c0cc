import CourseQuery.Archive.Zstandard.StateTable

/-!
# Literals of a zstandard block

A block begins with its literals, the bytes that are not copied from earlier ones. They are stored,
or one byte repeated, or written by a prefix code, in one stream or in four. A prefix code is told
by the weights of the bytes: a byte with a greater weight has a shorter code. The code of an earlier
block may be used again.
-/

set_option autoImplicit false

namespace CourseQuery.Zstandard

/-- What the bits at hand stand for: a byte and the length of its code. -/
structure Coded where
  byte : UInt8
  width : Nat

/-- A prefix code: what stands for each sequence of `longest` bits. -/
structure ByteCode where
  longest : Nat
  table : Array Coded

namespace ByteCode

/-- The greatest length of a code, and the greatest weight. -/
def limit : Nat := 12

/-- The share of a weight in all sequences of bits. -/
def share (weight : Nat) : Nat :=
  (1 <<< weight) / 2

/-- The code of the bytes whose weights are given, up to the last that has one. Its weight is left
out, as it fills the code. -/
def ofWeights? (weights : List Nat) : Option ByteCode :=
  let filled := weights.foldr (fun weight n => share weight + n) 0
  let longest := Nat.log2 filled + 1
  let rest := (1 <<< longest) - filled
  let weights := weights ++ [Nat.log2 rest + 1]
  let least := weights.count 1
  if filled = 0 ∨ limit < longest ∨ rest ≠ 1 <<< Nat.log2 rest ∨ least < 2 ∨ least % 2 = 1 ∨
      weights.any (limit < ·) then none
  else
    let coded := (List.range longest).flatMap fun w =>
      (weights.zipIdx.filter fun (weight, _) => weight = w + 1).flatMap fun (weight, b) =>
        List.replicate (share weight) (⟨UInt8.ofNat b, longest + 1 - weight⟩ : Coded)
    some ⟨longest, coded.toArray⟩

/-- The weights in half bytes, the greater half first. -/
def halves (bytes : Bytes) : List Nat :=
  bytes.flatMap fun b => [b.toNat / 16, b.toNat % 16]

/-- Reads the weights of a code, `header` being the number of bytes of symbols of two machines or,
from 128 on, the number of half bytes. -/
def weights? (header : Nat) (bytes : Bytes) : Option (List Nat × Bytes) :=
  if 128 ≤ header then do
    let count := header - 127
    let (front, bytes) ← bytes.cut? ((count + 1) / 2)
    some ((halves front).take count, bytes)
  else do
    let (front, bytes) ← bytes.cut? header
    let (table, written) ← StateTable.read? 6 255 front
    let bits ← backward? written
    let (here, bits) ← table.start? bits
    let (there, bits) ← table.start? bits
    some (← table.alternate? 254 here there bits, bytes)

/-- Reads a code. -/
def read? (bytes : Bytes) : Option (ByteCode × Bytes) := do
  let (header, bytes) ← bytes.takeNat? 1
  let (weights, bytes) ← weights? header bytes
  some (← ofWeights? weights, bytes)

/-- The number of the next `count` bits, zeros standing behind the last. -/
def ahead (count : Nat) (bits : Bits) : Nat :=
  let front := bits.take count
  front.foldl (fun n bit => 2 * n + bit.toNat) 0 <<< (count - front.length)

/-- Reads bytes up to the end of a stream. -/
def decode? (code : ByteCode) :
    (count : Nat) → Bits → (output : Array UInt8) → Option (Array UInt8)
  | 0, bits, output => if bits.isEmpty then some output else none
  | count + 1, bits, output => do
    let coded ← code.table[ahead code.longest bits]?
    let (_, bits) ← bits.cut? coded.width
    decode? code count bits (output.push coded.byte)

/-- Reads streams with numbers of bytes. -/
def streams? (code : ByteCode) : List (Nat × Bytes) → (output : Array UInt8) → Option (Array UInt8)
  | [], output => some output
  | (count, bytes) :: rest, output => do
    let output ← code.decode? count (← backward? bytes) output
    streams? code rest output

/-- Reads four streams with `count` bytes in all. The sizes of the first three stand in front, and
the fourth takes the rest. -/
def fourStreams? (code : ByteCode) (count : Nat) (bytes : Bytes) : Option (Array UInt8) := do
  let quarter := (count + 3) / 4
  if count < 6 ∨ count < 3 * quarter then none
  let (first, bytes) ← bytes.takeNat? 2
  let (second, bytes) ← bytes.takeNat? 2
  let (third, bytes) ← bytes.takeNat? 2
  let (firstBytes, bytes) ← bytes.cut? first
  let (secondBytes, bytes) ← bytes.cut? second
  let (thirdBytes, bytes) ← bytes.cut? third
  code.streams? [(quarter, firstBytes), (quarter, secondBytes), (quarter, thirdBytes),
    (count - 3 * quarter, bytes)] #[]

end ByteCode

/-- The literals of a block, and the code that a later block may use again. -/
structure Literals where
  bytes : Array UInt8
  code : Option ByteCode

namespace Literals

/-- The number of the bits of a number from one position on. -/
def bitsOf (n start count : Nat) : Nat :=
  (n >>> start) % (1 <<< count)

/-- Reads literals that are stored or one byte repeated. -/
def plain? (repeated : Bool) (format : Nat) (code : Option ByteCode) (bytes : Bytes) :
    Option (Literals × Bytes) := do
  let (start, length) := if format % 2 = 0 then (3, 1) else (4, if format = 1 then 2 else 3)
  let (header, bytes) ← bytes.takeNat? length
  let count := header >>> start
  if repeated then
    let (b, bytes) ← bytes.takeNat? 1
    some (⟨Array.replicate count (UInt8.ofNat b), code⟩, bytes)
  else
    let (front, bytes) ← bytes.cut? count
    some (⟨front.toArray, code⟩, bytes)

/-- Reads literals that are written by a prefix code, the one at hand or a new one. -/
def coded? (again : Bool) (format : Nat) (code : Option ByteCode) (bytes : Bytes) :
    Option (Literals × Bytes) := do
  let width := if format ≤ 1 then 10 else if format = 2 then 14 else 18
  let (header, bytes) ← bytes.takeNat? ((4 + 2 * width + 7) / 8)
  let count := bitsOf header 4 width
  let (front, bytes) ← bytes.cut? (bitsOf header (4 + width) width)
  let (code, front) ← if again then code.map fun code => (code, front) else ByteCode.read? front
  let output ←
    if format = 0 then code.streams? [(count, front)] #[] else code.fourStreams? count front
  some (⟨output, some code⟩, bytes)

/-- Reads the literals of a block, the code at hand being that of an earlier block. -/
def read? (code : Option ByteCode) (bytes : Bytes) : Option (Literals × Bytes) := do
  let (header, _) ← bytes.takeNat? 1
  let format := bitsOf header 2 2
  match header % 4 with
  | 0 => plain? false format code bytes
  | 1 => plain? true format code bytes
  | 2 => coded? false format code bytes
  | _ => coded? true format code bytes

end Literals

end CourseQuery.Zstandard
