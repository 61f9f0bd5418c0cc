import CourseQuery.Archive.Bzip2
import CourseQuery.Archive.Entry
import CourseQuery.Archive.Inflate
import CourseQuery.Archive.Zip.Header
import CourseQuery.Archive.Zstandard
import CourseQuery.Checksum

/-!
# Zip archives

The entries of a zip archive come in the order of its central directory, whose names, sizes and
checksums count; the local header of an entry only tells where the data begins. Data is stored as
it is or compressed by one of three methods. An entry is a directory when its name ends with a
separator.

`writeStored` writes an archive whose entries are stored as they are.
-/

set_option autoImplicit false

namespace CourseQuery.Zip

open Archive (Entry Fault)

/-- The first bytes of an archive with entries: the signature of a local header. -/
def localSignature : Bytes := [0x50, 0x4B, 0x03, 0x04]

/-- The bytes from the data of an entry on, behind its local header. -/
def dataOf? (archive : Bytes) (h : Header) : Option Bytes := do
  let bytes ← takeSignature? localSignature (archive.drop h.start)
  let (_, bytes) ← bytes.cut? 22
  let (nameLength, bytes) ← bytes.takeNat? 2
  let (extraLength, bytes) ← bytes.takeNat? 2
  some (bytes.drop (nameLength + extraLength))

/-- How the data of an entry is kept. -/
inductive Method
  | stored
  | deflate
  | bzip2
  | zstandard
deriving DecidableEq, Repr

namespace Method

/-- The method with the given number. -/
def ofNumber? : Nat → Option Method
  | 0 => some stored
  | 8 => some deflate
  | 12 => some bzip2
  | 93 => some zstandard
  | _ => none

/-- The content that data kept in this way stands for. -/
def restore? : Method → Bytes → Option Bytes
  | stored, data => some data
  | deflate, data => Inflate.inflate? data
  | bzip2, data => Bzip2.decompress? data
  | zstandard, data => Zstandard.decompress? data

end Method

/-- The content of an entry from its compressed data; its checksum must agree. -/
def contentOf? (h : Header) (method : Method) (data : Bytes) : Option Bytes := do
  let content ← method.restore? data
  if (Checksum.crc32 content).toNat = h.crc then some content else none

/-- The file of an entry, or none if it is a directory. The zip reader is given no password, so it
is taken to fail with one and the same error wherever a password would be needed: on an entry whose
encryption bit is set, and on one whose bit is clear but whose extra fields name a cipher. Neither
is looked into any further. -/
def readEntry (archive : Bytes) (h : Header) : Except Fault (Option Entry) :=
  if h.encrypted || h.ciphered then .error (.entry "the entry is encrypted")
  else
    match dataOf? archive h with
    | none => .error (.entry "there is no local header")
    | some data =>
      match Method.ofNumber? h.method with
      | none => .error (.entry "the compression method is unknown")
      | some method =>
        if h.isDirectory then .ok none
        else
          match contentOf? h method (data.take h.compressedSize) with
          | none => .error (.content h.name "the data is damaged")
          | some content => .ok (some ⟨h.name, content⟩)

/-- The regular files of a zip archive, in order. -/
def read (archive : Bytes) : Except Fault (List Entry) :=
  match directory? archive with
  | none => .error (.archive "there is no central directory")
  | some headers => do
    let entries ← headers.mapM (readEntry archive)
    .ok (entries.filterMap id)

section Writing

/-- The numbers that a local header and a central entry share, for a stored file. -/
def sharedFields (e : Entry) : Bytes :=
  Bytes.ofNat 2 20 ++ Bytes.ofNat 2 0 ++ Bytes.ofNat 2 0 ++ Bytes.ofNat 4 0 ++
    Bytes.ofNat 4 (Checksum.crc32 e.content).toNat ++ Bytes.ofNat 4 e.content.length ++
    Bytes.ofNat 4 e.content.length ++ Bytes.ofNat 2 (Bytes.ofAscii e.path).length ++ Bytes.ofNat 2 0

/-- The local header of a stored file and its data. -/
def localPart (e : Entry) : Bytes :=
  localSignature ++ sharedFields e ++ Bytes.ofAscii e.path ++ e.content

/-- The central entry of a stored file whose local header begins at `start`. -/
def centralPart (start : Nat) (e : Entry) : Bytes :=
  centralSignature ++ Bytes.ofNat 2 20 ++ sharedFields e ++ Bytes.ofNat 2 0 ++ Bytes.ofNat 2 0 ++
    Bytes.ofNat 2 0 ++ Bytes.ofNat 4 0 ++ Bytes.ofNat 4 start ++ Bytes.ofAscii e.path

/-- The central entries of stored files, the first local header beginning at `start`. -/
def centralParts : (start : Nat) → List Entry → Bytes
  | _, [] => []
  | start, e :: es => centralPart start e ++ centralParts (start + (localPart e).length) es

/-- A zip archive with the given files, their paths ASCII, each stored as it is. -/
def writeStored (entries : List Entry) : Bytes :=
  let locals := entries.flatMap localPart
  let central := centralParts 0 entries
  locals ++ central ++ endSignature ++ Bytes.ofNat 2 0 ++ Bytes.ofNat 2 0 ++
    Bytes.ofNat 2 entries.length ++ Bytes.ofNat 2 entries.length ++
    Bytes.ofNat 4 central.length ++ Bytes.ofNat 4 locals.length ++ Bytes.ofNat 2 0

end Writing

end CourseQuery.Zip
