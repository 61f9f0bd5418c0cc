import CourseQuery.Dataset.Directory
import CourseQuery.Dataset.Manifest
import CourseQuery.Dataset.Store
import CourseQuery.Record.Json

/-!
# The store on disk

A directory holds two files for a dataset, its records and its manifest, both named after the id.
The manifest is written last and removed first, so a dataset exists exactly when its manifest does
and a records file alone is as good as none. Loading trusts neither file: the manifest must be
readable, the checksum of the records must be the one it holds, and every record must be complete.
A folder may stand in the place of either file, and then it can be neither read nor written.
-/

set_option autoImplicit false

namespace CourseQuery

namespace Disk

/-- The end of the name of a records file. -/
def recordsEnding : String := ".records.json"

/-- The end of the name of a manifest file. -/
def manifestEnding : String := ".manifest.json"

/-- The name of the records file of a dataset. -/
def recordsFile (id : String) : String := id ++ recordsEnding

/-- The name of the manifest file of a dataset. -/
def manifestFile (id : String) : String := id ++ manifestEnding

/-- An id whose files lie in the directory and nowhere else, whatever the id is made of. -/
def isPathSafe (id : String) : Bool :=
  let chars := id.toList
  !chars.isEmpty && chars.head? != some '.' && !chars.contains '/' && !chars.contains '\\'

section

variable {δ : Type} [Files δ]

/-- The manifest file of a dataset that exists. -/
def manifestBytes (d : δ) (id : String) : Except StoreError Bytes :=
  if isPathSafe id then
    match Files.find? d (manifestFile id) with
    | some file => .ok file
    | none => .error (.notFound id)
  else .error (.notFound id)

/-- The manifest of a dataset. One that is no manifest is a damage. -/
def manifest (d : δ) (id : String) : Except StoreError Manifest := do
  match Manifest.ofBytes (← manifestBytes d id) with
  | .error (.document reason) => .error (.corrupt id (.manifest reason))
  | result => result

/-- The first record that is not complete, the records being counted from `position`. -/
def firstDefect? (position : Nat) : List Record → Option Corruption
  | [] => none
  | r :: rs =>
    match r.defect? with
    | some defect => some (.record position defect)
    | none => firstDefect? (position + 1) rs

/-- The records that the bytes of a records file list. -/
def recordsOfBytes? (file : Bytes) : Option (List Record) :=
  (Text.Utf8.decode? file).bind Record.listOfText?

/-- The records of a records file that its manifest vouches for. -/
def verified (m : Manifest) (file : Bytes) : Except Corruption (List Record) :=
  if m.verify file then
    match recordsOfBytes? file with
    | none => .error (.records "not a list of records")
    | some records =>
      if records.length = m.rows then
        match firstDefect? 0 records with
        | some damage => .error damage
        | none => .ok records
      else .error (.rowCount m.rows records.length)
  else .error .checksum

/-- The records of a dataset. -/
def load (d : δ) (id : String) : Except StoreError (List Record) := do
  let m ← manifest d id
  match Files.find? d (recordsFile id) with
  | none => .error (.access "cannot read the records file")
  | some file =>
    match verified m file with
    | .error damage => .error (.corrupt id damage)
    | .ok records => .ok records

/-- Why nothing can be stored under an id, if so. -/
def obstacle? (d : δ) (id : String) : Option StoreError :=
  match StoreError.ofId? id with
  | some error => some error
  | none =>
    if isPathSafe id then
      if Files.contains d (manifestFile id) then some (.exists id) else none
    else some (.invalidId id .path)

/-- The bytes of the records file of some records. -/
def recordsBytes (records : List Record) : Bytes :=
  Text.Utf8.encode (Record.textOfList records)

/-- Writes the two files of a dataset, the records first. A name that is too long for the manifest
alone leaves the records behind. -/
def writeDataset (d : δ) (now id : String) (kind : DatasetKind) (records : List Record) :
    Except StoreError DatasetInfo × δ :=
  let file := recordsBytes records
  let m := Manifest.ofRecords id kind records.length now file
  match Files.write? d (recordsFile id) file with
  | none => (.error (.access "cannot create the records file"), d)
  | some d =>
    match Files.write? d (manifestFile id) m.toBytes with
    | none => (.error (.access "cannot create the manifest file"), d)
    | some d => (.ok m.info, d)

/-- Imports an archive under an id that is free. -/
def add (d : δ) (now id : String) (archive : Bytes) (kind : DatasetKind) : Addition δ :=
  match obstacle? d id with
  | some error => ⟨.error error, d, []⟩
  | none =>
    match Import.ofArchive archive kind with
    | (.error fault, trace) => ⟨.error (.importFailed fault), d, trace⟩
    | (.ok records, trace) =>
      let (result, d) := writeDataset d now id kind records
      ⟨result, d, trace⟩

/-- Drops a dataset, whatever its files hold. A folder in the place of the records stays, though the
manifest is gone by then. -/
def remove (d : δ) (id : String) : Removal δ :=
  match manifestBytes d id with
  | .error error => ⟨.error error, d⟩
  | .ok _ =>
    let d := Files.erase d (manifestFile id)
    if Files.containsFolder d (recordsFile id) then
      ⟨.error (.access "cannot remove the records file"), d⟩
    else ⟨.ok (), Files.erase d (recordsFile id)⟩

/-- Whether a name is that of a manifest file. -/
def isManifestFile (name : String) : Bool :=
  manifestEnding.toList.isSuffixOf name.toList

/-- The manifest in a file, if the file can be read at all. -/
def readManifest : Option Bytes → Except StoreError Manifest
  | some file => Manifest.ofBytes file
  | none => .error (.access "cannot read the manifest file")

/-- The trace entry of a manifest that a listing leaves out. -/
def unreadableEntry (name : String) (error : StoreError) : Trace.Entry :=
  Trace.Event.datasetUnreadable.entry [("file", name), ("reason", error.message)]

/-- What a listing shows of a file. -/
def infoOf? : String × Option Bytes → Option DatasetInfo
  | (name, file) =>
    if isManifestFile name then (readManifest file).toOption.map Manifest.info else none

/-- What a listing traces of a file. -/
def unreadable? : String × Option Bytes → Option Trace.Entry
  | (name, file) =>
    if isManifestFile name then
      match readManifest file with
      | .error error => some (unreadableEntry name error)
      | .ok _ => none
    else none

/-- The listing of files that are looked at in some order. -/
def listingOf (files : List (String × Option Bytes)) : Listing :=
  ⟨(files.filterMap infoOf?).mergeSort fun a b => decide (a.id ≤ b.id),
   files.filterMap unreadable?⟩

/-- Every dataset whose manifest can be read, in the order of the ids. -/
def list (d : δ) : Listing :=
  listingOf (Files.entries d)

end

end Disk

/-- Files are a store on disk. -/
instance {δ : Type} [Files δ] : Store δ where
  load := Disk.load
  add := Disk.add
  remove := Disk.remove
  list := Disk.list

end CourseQuery
