import CourseQuery.Archive.Tar
import CourseQuery.Archive.Zip
import CourseQuery.Dataset.Basic
import CourseQuery.Import.Section
import CourseQuery.Trace.Entry

/-!
# Importing an archive

An archive that begins like a zip is read as one and every other as a tar. Each of its files below
`courses/` is a section, unless it is too short to hold a row behind the header. The records of the
sections are the dataset, in order; each row with a fault is traced and left out. An archive without
any record is refused.
-/

set_option autoImplicit false

namespace CourseQuery.Import

/-- Why nothing was imported. -/
inductive Fault where
  | unknownKind (name : String)
  | unsupportedKind (kind : DatasetKind)
  | archive (fault : Archive.Fault)
  | noRows (sections : Nat)
deriving DecidableEq, Repr

/-- The wording of a fault. -/
def Fault.message : Fault → String
  | unknownKind name => s!"unknown dataset kind '{name}'"
  | unsupportedKind kind => s!"{kind.name} datasets are not supported"
  | archive fault => fault.message
  | noRows sections => s!"archive holds no course rows ({sections} sections read)"

/-- The directory of the sections. -/
def directory : List Char := "courses/".toList

/-- The number of bytes up to which a section is too short to be read. -/
def shortLength : Nat := 70

/-- A path without the `./` that it may begin with, any number of times. -/
def plainPath : List Char → List Char
  | '.' :: '/' :: rest => plainPath rest
  | path => path

/-- A section with the path it is known by. -/
structure NamedSection where
  path : String
  text : String
deriving DecidableEq, Repr

/-- The section that a file of an archive is, if it is one. -/
def section? (e : Archive.Entry) : Option NamedSection :=
  let path := plainPath e.path.toList
  let text := Text.Utf8.decodeLossy e.content
  if directory.isPrefixOf path ∧ shortLength < Text.Utf8.size text.toList then
    some ⟨String.ofList path, text⟩
  else none

/-- The files of an archive. -/
def files (archive : Bytes) : Except Archive.Fault (List Archive.Entry) :=
  if Zip.localSignature.isPrefixOf archive then Zip.read archive else Tar.read archive

/-- The records of sections, in order. -/
def records (sections : List NamedSection) : List Record :=
  sections.flatMap fun s => (Section.lines s.text).filterMap Section.Line.record?

/-- The trace entry of a row that was left out. -/
def skippedEntry (path : String) (number : Nat) (fault : Section.RowFault) : Trace.Entry :=
  Trace.Event.importRowSkipped.entry
    [("line", toString number), ("reason", fault.message), ("section", path)]

/-- The trace entries of the rows that were left out, in order. -/
def skipped (sections : List NamedSection) : List Trace.Entry :=
  sections.flatMap fun s =>
    (Section.lines s.text).filterMap fun line =>
      line.skipped?.map fun (number, fault) => skippedEntry s.path number fault

/-- Reads the files of an archive: the records, or why there are none, and what is traced. -/
def ofFiles (files : List Archive.Entry) : Except Fault (List Record) × List Trace.Entry :=
  let sections := files.filterMap section?
  let found := records sections
  (if found.isEmpty then .error (.noRows sections.length) else .ok found, skipped sections)

/-- Imports an archive: the records, or why there are none, and what is traced. -/
def ofArchive (archive : Bytes) (kind : DatasetKind) :
    Except Fault (List Record) × List Trace.Entry :=
  if kind = .courses then
    match files archive with
    | .error fault => (.error (.archive fault), [])
    | .ok files => ofFiles files
  else (.error (.unsupportedKind kind), [])

end CourseQuery.Import
