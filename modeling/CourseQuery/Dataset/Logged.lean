import CourseQuery.Dataset.Disk
import CourseQuery.Dataset.Memory
import CourseQuery.Trace.Logger

/-!
# Stores that log

An import and a listing log each entry where it arises: a row that is left out when the import comes
to its line, and a manifest that cannot be read when the listing comes to its file.
-/

set_option autoImplicit false

namespace CourseQuery

open Trace (Logging log)

namespace Import

/-- Reads the lines of a section, `index` lines behind its header. -/
def logLines (path : String) (index : Nat) : List (List Char) → Logging (List Record)
  | [] => return []
  | line :: lines =>
    match Section.readLine (index + 2) line with
    | .blank => logLines path (index + 1) lines
    | .row record => do
      let records ← logLines path (index + 1) lines
      return record :: records
    | .skipped number fault => do
      log (skippedEntry path number fault)
      logLines path (index + 1) lines

/-- Reads the sections among files: how many there are, and their records. -/
def logFiles : List Archive.Entry → Logging (Nat × List Record)
  | [] => return (0, [])
  | file :: files =>
    match section? file with
    | none => logFiles files
    | some s => do
      let records ← logLines s.path 0 ((Text.split '\n' s.text.toList).drop 1)
      let (sections, more) ← logFiles files
      return (sections + 1, records ++ more)

/-- Imports an archive. -/
def logArchive (archive : Bytes) (kind : DatasetKind) : Logging (Except Fault (List Record)) :=
  if kind = .courses then
    match files archive with
    | .error fault => return .error (.archive fault)
    | .ok files => do
      let (sections, records) ← logFiles files
      return if records.isEmpty then .error (.noRows sections) else .ok records
  else return .error (.unsupportedKind kind)

end Import

/-- A store whose operations log. Loading and dropping log nothing. -/
class LoggedStore (σ : Type) [Store σ] where
  /-- Imports an archive under an id that is free, at a time. -/
  logAdd : σ → (now id : String) → (archive : Bytes) → DatasetKind →
    Logging (Except StoreError DatasetInfo × σ)
  /-- Every dataset, in the order of the ids. -/
  logList : σ → Logging (List DatasetInfo)

/-- Imports an archive into a store in memory. -/
def MemoryStore.logAdd (s : MemoryStore) (id : String) (archive : Bytes) (kind : DatasetKind) :
    Logging (Except StoreError DatasetInfo × MemoryStore) :=
  match s.obstacle? id with
  | some error => return (.error error, s)
  | none => do
    match ← Import.logArchive archive kind with
    | .error fault => return (.error (.importFailed fault), s)
    | .ok records =>
      let dataset : Dataset := ⟨kind, records⟩
      return (.ok (dataset.info id), s.put id dataset)

instance : LoggedStore MemoryStore where
  logAdd s _ := s.logAdd
  logList s := return s.list.infos

namespace Disk

section

variable {δ : Type} [Files δ]

/-- Imports an archive into a store on disk. -/
def logAdd (d : δ) (now id : String) (archive : Bytes) (kind : DatasetKind) :
    Logging (Except StoreError DatasetInfo × δ) :=
  match obstacle? d id with
  | some error => return (.error error, d)
  | none => do
    match ← Import.logArchive archive kind with
    | .error fault => return (.error (.importFailed fault), d)
    | .ok records => return writeDataset d now id kind records

/-- What the manifests among files tell, in the order of the files. -/
def logInfos : List (String × Option Bytes) → Logging (List DatasetInfo)
  | [] => return []
  | (name, file) :: files =>
    if isManifestFile name then
      match readManifest file with
      | .ok manifest => do
        let infos ← logInfos files
        return manifest.info :: infos
      | .error error => do
        log (unreadableEntry name error)
        logInfos files
    else logInfos files

/-- Every dataset whose manifest can be read, in the order of the ids. -/
def logList (d : δ) : Logging (List DatasetInfo) := do
  let infos ← logInfos (Files.entries d)
  return infos.mergeSort fun a b => decide (a.id ≤ b.id)

end

end Disk

instance {δ : Type} [Files δ] : LoggedStore δ where
  logAdd := Disk.logAdd
  logList := Disk.logList

end CourseQuery
