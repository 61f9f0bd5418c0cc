import CourseQuery.Bytes
import CourseQuery.Text.Blank
import CourseQuery.Text.Utf8

/-!
# Headers of a tar archive

A tar archive is a sequence of blocks of 512 bytes. The header of a member is one block with fields
at fixed places: its name, its type, the size of its data and a checksum over the whole block.
Numbers are written in base eight or, when marked so, in base 256. There are three forms of header,
told apart by a signature; the newer ones keep a directory or the map of a sparse file apart.
-/

set_option autoImplicit false

namespace CourseQuery.Tar

/-- The size of a block. -/
def blockSize : Nat := 512

/-- A number rounded up to whole blocks. -/
def roundUp (n : Nat) : Nat :=
  (n + (blockSize - 1)) / blockSize * blockSize

/-- The bytes of a header field, up to its first zero. -/
def upToZero (bytes : Bytes) : Bytes :=
  bytes.takeWhile (· ≠ 0)

/-- The bytes of a block from one position up to another. -/
def part (block : Bytes) (start stop : Nat) : Bytes :=
  (block.drop start).take (stop - start)

/-- Reads a number of at most eight bytes in base eight. It may have a plus sign and stand among
blanks. -/
def octal? (bytes : Bytes) : Option Nat := do
  let text ← Text.Utf8.decode? (upToZero bytes)
  let digits := match Text.trimChars text.toList with
    | '+' :: digits => digits
    | digits => digits
  if digits.isEmpty ∨ ¬ digits.all fun c => '0' ≤ c && c ≤ '7' then none
  let n := digits.foldl (fun n c => 8 * n + (c.toNat - '0'.toNat)) 0
  if n < UInt64.size then some n else none

/-- Reads a number field of twelve bytes, in base eight or, when its first bit is set, in base 256,
of which the last eight bytes count. -/
def number? (bytes : Bytes) : Option Nat :=
  if 0x80 ≤ (bytes.headD 0).toNat then
    some ((bytes.drop 4).foldl (fun n b => 256 * n + b.toNat) 0)
  else octal? bytes

/-- The three forms of header. The newer two know long names and extended headers. -/
inductive Format where
  | old
  | ustar
  | gnu
deriving DecidableEq, Repr

/-- A header. -/
structure Header where
  block : Bytes

namespace Header

/-- The form of a header, told by its signature. -/
def format (h : Header) : Format :=
  let signature := part h.block 257 265
  if signature = Bytes.ofAscii "ustar" ++ [0] ++ Bytes.ofAscii "00" then .ustar
  else if signature = Bytes.ofAscii "ustar  " ++ [0] then .gnu
  else .old

/-- The type of a member. -/
def type (h : Header) : Char :=
  Char.ofNat ((part h.block 156 157).headD 0).toNat

/-- The member is a plain file. -/
def isFile (h : Header) : Bool :=
  h.type == '0' || h.type == '\x00'

/-- The member is by its type a long name, a long link or an extended header, which tells of other
members. -/
def describesOthers (h : Header) : Bool :=
  h.type == 'L' || h.type == 'K' || h.type == 'x' || h.type == 'g'

/-- The sum of the bytes of a header, its own checksum counted as blanks. -/
def sum (h : Header) : Nat :=
  (part h.block 0 148 ++ part h.block 156 512).foldr (fun b n => b.toNat + n) (8 * 32)

/-- The checksum that a header states agrees with its bytes. -/
def checks (h : Header) : Bool :=
  match octal? (part h.block 148 156) with
  | some n => n % UInt32.size == h.sum
  | none => false

/-- The size of the data of a member. -/
def size? (h : Header) : Option Nat :=
  number? (part h.block 124 136)

/-- The path that a header states. -/
def path (h : Header) : Bytes :=
  let name := part h.block 0 100
  let folder := part h.block 345 500
  if h.format = .ustar ∧ ¬ (folder.headD 0 = 0 ∧ ¬ name.contains (UInt8.ofNat '\\'.toNat)) then
    let folder := upToZero folder
    (if folder.isEmpty then [] else folder ++ [UInt8.ofNat '/'.toNat]) ++ upToZero name
  else upToZero name

end Header

end CourseQuery.Tar
