import CourseQuery.Archive.CodePage437
import CourseQuery.Archive.Zip.End
import CourseQuery.Text.Utf8

/-!
# The central directory of a zip archive

An entry of the central directory tells the name, the sizes and the checksum of a file and where its
local header begins. Extra fields follow the name. One of them holds the numbers that do not fit,
for those that are at their limit, and another says by which cipher the entry is sealed; the rest
are passed over. A field that is cut short ends the fields and is no fault.
-/

set_option autoImplicit false

namespace CourseQuery.Zip

/-- The signature of an entry of the central directory. -/
def centralSignature : Bytes := [0x50, 0x4B, 0x01, 0x02]

/-- The value of a number that does not fit into four bytes. -/
def wideMark : Nat := 0xFFFFFFFF

/-- The kind of the extra field with the numbers that do not fit. -/
def wideKind : Nat := 0x0001

/-- The kind of the extra field with the cipher. -/
def cipherKind : Nat := 0x9901

/-- The compression method of an entry whose cipher tells the real one. -/
def cipherMethod : Nat := 99

/-- An entry of the central directory. -/
structure Header where
  encrypted : Bool
  /-- An extra field names a cipher. -/
  ciphered : Bool
  method : Nat
  crc : Nat
  compressedSize : Nat
  contentSize : Nat
  name : String
  /-- Where the local header begins. -/
  start : Nat
deriving DecidableEq, Repr

/-- What comes of an extra field. -/
inductive Extra where
  /-- The header after the field and the bytes behind it. -/
  | read (header : Header) (rest : Bytes)
  /-- The field is cut short; the header has what was there. -/
  | cut (header : Header)
  /-- The cipher is not one that can be named. -/
  | refused

/-- A number of a header or, if it says so, the one that the field holds for it. -/
def wideNat? (n : Nat) (field : Bytes) : Option (Nat × Bytes) :=
  if n = wideMark then field.takeNat? 8 else some (n, field)

namespace Header

/-- Reads the numbers that do not fit: the two sizes and the start, as far as they are asked for. -/
def widen (h : Header) (field : Bytes) : Extra :=
  match wideNat? h.contentSize field with
  | none => .cut h
  | some (contentSize, field) =>
    let h := { h with contentSize }
    match wideNat? h.compressedSize field with
    | none => .cut h
    | some (compressedSize, field) =>
      let h := { h with compressedSize }
      match wideNat? h.start field with
      | none => .cut h
      | some (start, field) => .read { h with start } field

/-- The version, the vendor, the strength and the compression method that a cipher states. -/
def cipher? (field : Bytes) : Option ((Nat × Nat × Nat × Nat) × Bytes) := do
  let (version, field) ← field.takeNat? 2
  let (vendor, field) ← field.takeNat? 2
  let (strength, field) ← field.takeNat? 1
  let (method, field) ← field.takeNat? 2
  some ((version, vendor, strength, method), field)

/-- Reads the cipher of an entry, whose field has a fixed length. -/
def cipher (h : Header) (length : Nat) (field : Bytes) : Extra :=
  if length ≠ 7 then .refused
  else
    match cipher? field with
    | none => .cut h
    | some ((version, vendor, strength, method), field) =>
      if vendor = 0x4541 ∧ (version = 1 ∨ version = 2) ∧ 1 ≤ strength ∧ strength ≤ 3 then
        .read { h with ciphered := true, method } (field.drop length)
      else .refused

/-- Reads an extra field. The numbers that do not fit may take more than the length of their field,
and what they leave of it is passed over. -/
def extra (h : Header) (bytes : Bytes) : Extra :=
  match bytes.takeNat? 2 with
  | none => .cut h
  | some (kind, bytes) =>
    match bytes.takeNat? 2 with
    | none => .cut h
    | some (length, field) =>
      if kind = wideKind then
        match h.widen field with
        | .read h rest => .read h (rest.drop (length - (field.length - rest.length)))
        | other => other
      else if kind = cipherKind then h.cipher length field
      else .read h (field.drop length)

/-- Reads the extra fields. Every field takes bytes, so their number is fuel enough. -/
def extras? : (fuel : Nat) → Header → Bytes → Option Header
  | 0, h, _ => some h
  | _ + 1, h, [] => some h
  | fuel + 1, h, bytes =>
    match h.extra bytes with
    | .read h rest => extras? fuel h rest
    | .cut h => some h
    | .refused => none

/-- The header in an archive that is shifted. A position in an archive has at most eight bytes. -/
def shifted? (h : Header) (shift : Nat) : Option Header :=
  if h.start + shift < UInt64.size then some { h with start := h.start + shift } else none

/-- The header has the cipher that its method asks for. -/
def isComplete (h : Header) : Bool :=
  h.method ≠ cipherMethod || h.ciphered

/-- Reads an entry of the central directory of an archive that is shifted. -/
def read? (shift : Nat) (bytes : Bytes) : Option (Header × Bytes) := do
  let bytes ← takeSignature? centralSignature bytes
  let (_, bytes) ← bytes.cut? 4
  let (flags, bytes) ← bytes.takeNat? 2
  let (method, bytes) ← bytes.takeNat? 2
  let (_, bytes) ← bytes.cut? 4
  let (crc, bytes) ← bytes.takeNat? 4
  let (compressedSize, bytes) ← bytes.takeNat? 4
  let (contentSize, bytes) ← bytes.takeNat? 4
  let (nameLength, bytes) ← bytes.takeNat? 2
  let (extraLength, bytes) ← bytes.takeNat? 2
  let (commentLength, bytes) ← bytes.takeNat? 2
  let (_, bytes) ← bytes.cut? 8
  let (start, bytes) ← bytes.takeNat? 4
  let (name, bytes) ← bytes.cut? nameLength
  let (extra, bytes) ← bytes.cut? extraLength
  let (_, bytes) ← bytes.cut? commentLength
  let name := if flags.testBit 11 then Text.Utf8.decodeLossy name else CodePage437.decode name
  let h : Header :=
    ⟨flags.testBit 0, false, method, crc, compressedSize, contentSize, name, start⟩
  let h ← extras? extra.length h extra
  if h.isComplete = false then none
  some (← h.shifted? shift, bytes)

/-- A name that ends with a separator is that of a directory. -/
def isDirectory (h : Header) : Bool :=
  h.name.toList.getLast? == some '/' || h.name.toList.getLast? == some '\\'

end Header

/-- Reads a number of entries of the central directory of an archive that is shifted. -/
def headers? (shift : Nat) : (count : Nat) → Bytes → Option (List Header)
  | 0, _ => some []
  | count + 1, bytes => do
    let (header, bytes) ← Header.read? shift bytes
    let rest ← headers? shift count bytes
    some (header :: rest)

/-- The entries of the central directory. -/
def directory? (archive : Bytes) : Option (List Header) := do
  let extent ← extent? archive
  headers? extent.shift extent.entries (archive.drop extent.start)

end CourseQuery.Zip
