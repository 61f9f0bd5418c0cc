import CourseQuery.Checksum
import CourseQuery.Dataset.Error
import CourseQuery.Json.Reader
import CourseQuery.Json.Writer
import CourseQuery.Text.Utf8

/-!
# Manifests

A dataset on disk has a manifest beside its records. The manifest repeats the id and the kind,
counts the records and holds the checksum of the bytes of the records file. A dataset exists
exactly when its manifest does. A manifest is written with one member a line, and every one of its
members must be there once when it is read.
-/

set_option autoImplicit false

namespace CourseQuery

/-- What is known of a stored dataset without its records. -/
structure Manifest where
  id : String
  kind : DatasetKind
  rows : Nat
  createdAt : String
  checksum : UInt32
  version : UInt8
deriving DecidableEq, Repr

/-- The kind that a JSON value names, alone or as the one member of an object, the value being
null. -/
def DatasetKind.ofJson? : Json → Option DatasetKind
  | .string name => ofName? name
  | .object [(name, .null)] => ofName? name
  | _ => none

namespace Manifest

/-- The version of the format of the files. -/
def currentVersion : UInt8 := 1

/-- The manifest of a records file. -/
def ofRecords (id : String) (kind : DatasetKind) (rows : Nat) (createdAt : String)
    (records : Bytes) : Manifest :=
  ⟨id, kind, rows, createdAt, Checksum.crc32 records, currentVersion⟩

/-- What a listing tells about the dataset. -/
def info (m : Manifest) : DatasetInfo :=
  ⟨m.id, m.kind, m.rows⟩

/-- Whether the bytes of a records file are those that the manifest was made for. -/
def verify (m : Manifest) (records : Bytes) : Bool :=
  Checksum.crc32 records == m.checksum

/-- The members of a manifest, in order. -/
def members (m : Manifest) : List (String × Json) :=
  [("id", .string m.id), ("kind", .string m.kind.name), ("num_rows", .integer m.rows),
   ("created_at", .string m.createdAt), ("checksum", .integer m.checksum.toNat),
   ("format_version", .integer m.version.toNat)]

/-- The text of a manifest. -/
def text (m : Manifest) : String :=
  Json.membersByLine m.members

/-- The names of the members. -/
def memberNames : List String :=
  ["id", "kind", "num_rows", "created_at", "checksum", "format_version"]

/-- The manifest that a text spells. -/
def parse? (s : String) : Option Manifest := do
  let members ← Json.fields? memberNames s
  let id ← (← Json.only? "id" members).string?
  let kind ← DatasetKind.ofJson? (← Json.only? "kind" members)
  let rows ← (← Json.only? "num_rows" members).natBelow? UInt64.size
  let createdAt ← (← Json.only? "created_at" members).string?
  let checksum ← (← Json.only? "checksum" members).natBelow? UInt32.size
  let version ← (← Json.only? "format_version" members).natBelow? UInt8.size
  some ⟨id, kind, rows, createdAt, UInt32.ofNat checksum, UInt8.ofNat version⟩

/-- The bytes of a manifest file. -/
def toBytes (m : Manifest) : Bytes :=
  Text.Utf8.encode m.text

/-- The manifest that a file holds. -/
def ofBytes (file : Bytes) : Except StoreError Manifest :=
  match Text.Utf8.decode? file with
  | none => .error (.access "file is not valid UTF-8")
  | some s =>
    match parse? s with
    | none => .error (.document "not a manifest")
    | some m => .ok m

end Manifest

end CourseQuery
