import CourseQuery.Bytes

/-!
# The end of a zip archive

A zip archive is read from its end: the end record is the last place where its signature stands
with room for the record, and it tells how many entries the central directory has and how long it
is. Bytes before the archive shift every position, by as much as the end record is found too late.

An archive whose numbers do not fit has a wide end record as well. A locator right before the end
record says where the wide one begins, and again it may be found too late. If there is a locator,
the wide record is the one that counts.
-/

set_option autoImplicit false

namespace CourseQuery.Zip

/-- The signature of the end record. -/
def endSignature : Bytes := [0x50, 0x4B, 0x05, 0x06]

/-- The signature of the wide end record. -/
def wideEndSignature : Bytes := [0x50, 0x4B, 0x06, 0x06]

/-- The signature of the locator of the wide end record. -/
def locatorSignature : Bytes := [0x50, 0x4B, 0x06, 0x07]

/-- The size of an end record without comment. -/
def endSize : Nat := 22

/-- The size of a locator. -/
def locatorSize : Nat := 20

/-- How far before the end record the wide one begins at the latest. -/
def wideEndDistance : Nat := 60

/-- Takes a signature. -/
def takeSignature? (signature : Bytes) (bytes : Bytes) : Option Bytes :=
  if signature.isPrefixOf bytes then some (bytes.drop signature.length) else none

/-- The last position from which `endSignature` stands with room for the end record. `position` is
that of the bytes at hand and `found` the last one so far. -/
def lastEnd (total : Nat) : (found : Option Nat) → (position : Nat) → Bytes → Option Nat
  | found, _, [] => found
  | found, position, b :: rest =>
    let here := position + endSize ≤ total ∧ endSignature.isPrefixOf (b :: rest)
    lastEnd total (if here then some position else found) (position + 1) rest

/-- The first position up to `last` from which `wideEndSignature` stands. `position` is that of the
bytes at hand. -/
def firstWideEnd (last : Nat) : (position : Nat) → Bytes → Option Nat
  | _, [] => none
  | position, b :: rest =>
    if last < position then none
    else if wideEndSignature.isPrefixOf (b :: rest) then some position
    else firstWideEnd last (position + 1) rest

/-- What the end record tells. -/
structure EndRecord where
  disk : Nat
  directoryDisk : Nat
  entriesHere : Nat
  entriesInAll : Nat
  directorySize : Nat
  directoryStart : Nat
  commentLength : Nat
deriving DecidableEq, Repr

/-- Reads an end record, whose comment must be there in full. -/
def EndRecord.read? (bytes : Bytes) : Option EndRecord := do
  let bytes ← takeSignature? endSignature bytes
  let (disk, bytes) ← bytes.takeNat? 2
  let (directoryDisk, bytes) ← bytes.takeNat? 2
  let (entriesHere, bytes) ← bytes.takeNat? 2
  let (entriesInAll, bytes) ← bytes.takeNat? 2
  let (directorySize, bytes) ← bytes.takeNat? 4
  let (directoryStart, bytes) ← bytes.takeNat? 4
  let (commentLength, bytes) ← bytes.takeNat? 2
  let _ ← bytes.cut? commentLength
  some ⟨disk, directoryDisk, entriesHere, entriesInAll, directorySize, directoryStart,
    commentLength⟩

/-- Some number of an end record is at its limit, which says that the real one does not fit. -/
def EndRecord.overflows (e : EndRecord) : Bool :=
  e.disk == 0xFFFF || e.directoryDisk == 0xFFFF || e.entriesHere == 0xFFFF ||
    e.entriesInAll == 0xFFFF || e.directorySize == 0xFFFFFFFF || e.directoryStart == 0xFFFFFFFF

/-- What the locator tells: the disk of the wide end record and where the record begins. -/
structure Locator where
  disk : Nat
  start : Nat
deriving DecidableEq, Repr

/-- Reads a locator. -/
def Locator.read? (bytes : Bytes) : Option Locator := do
  let bytes ← takeSignature? locatorSignature bytes
  let (disk, bytes) ← bytes.takeNat? 4
  let (start, bytes) ← bytes.takeNat? 8
  let _ ← bytes.cut? 4
  some ⟨disk, start⟩

/-- The locator of an archive, which stands as far from the end of the bytes as an end record with
its comment leaves room for. -/
def EndRecord.locator? (e : EndRecord) (archive : Bytes) : Option Locator :=
  let distance := locatorSize + endSize + e.commentLength
  if archive.length < distance then none
  else Locator.read? (archive.drop (archive.length - distance))

/-- What the wide end record tells. -/
structure WideEndRecord where
  disk : Nat
  directoryDisk : Nat
  entries : Nat
  directoryStart : Nat
deriving DecidableEq, Repr

/-- Reads a wide end record. -/
def WideEndRecord.read? (bytes : Bytes) : Option WideEndRecord := do
  let bytes ← takeSignature? wideEndSignature bytes
  let (_, bytes) ← bytes.cut? 12
  let (disk, bytes) ← bytes.takeNat? 4
  let (directoryDisk, bytes) ← bytes.takeNat? 4
  let (_, bytes) ← bytes.cut? 8
  let (entries, bytes) ← bytes.takeNat? 8
  let (_, bytes) ← bytes.cut? 8
  let (directoryStart, _) ← bytes.takeNat? 8
  some ⟨disk, directoryDisk, entries, directoryStart⟩

/-- Where the central directory begins, how many entries it has, and how far the archive is
shifted. -/
structure Extent where
  start : Nat
  entries : Nat
  shift : Nat
deriving DecidableEq, Repr

/-- The extent that an end record at a position gives. -/
def EndRecord.extent? (e : EndRecord) (position : Nat) : Option Extent :=
  if position < e.directorySize + e.directoryStart then none
  else
    let shift := position - e.directorySize - e.directoryStart
    some ⟨e.directoryStart + shift, e.entriesHere, shift⟩

/-- The extent that the wide end record gives, the end record being at a position. A position in an
archive has at most eight bytes. -/
def Locator.extent? (l : Locator) (archive : Bytes) (position : Nat) : Option Extent := do
  if position < wideEndDistance then none
  let found ← firstWideEnd (position - wideEndDistance) l.start (archive.drop l.start)
  let record ← WideEndRecord.read? (archive.drop found)
  if record.disk ≠ record.directoryDisk then none
  let shift := found - l.start
  if UInt64.size ≤ record.directoryStart + shift then none
  some ⟨record.directoryStart + shift, record.entries, shift⟩

/-- The extent of the central directory of an archive on a single disk. -/
def extent? (archive : Bytes) : Option Extent := do
  let position ← lastEnd archive.length none 0 archive
  if position + endSize + 0xFFFF < archive.length then none
  let record ← EndRecord.read? (archive.drop position)
  if record.overflows = false ∧ record.disk ≠ record.directoryDisk then none
  match record.locator? archive with
  | none => record.extent? position
  | some locator =>
    if record.overflows = false ∧ record.disk ≠ locator.disk then none
    locator.extent? archive position

end CourseQuery.Zip
