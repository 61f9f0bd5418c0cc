import CourseQuery.Dataset.Logged
import CourseQuery.Proofs.Trace.Logger

/-!
# Stores log what they trace

An import that logs each row that it leaves out when it comes to it has the records that an import
has, and logs what an import traces; so has a listing that logs each unreadable manifest. Both
stores therefore do the same whether or not what they trace is logged on the way (`Faithful`).
-/

set_option autoImplicit false

namespace CourseQuery

open Trace (Logs)

/-! ## Importing -/

namespace Import

/-- Reading the lines of a section logs every line that is skipped. -/
theorem logs_logLines (path : String) (index : Nat) (lines : List (List Char)) :
    Logs (logLines path index lines)
      (((lines.zipIdx index).map fun (line, i) => Section.readLine (i + 2) line).filterMap
        Section.Line.record?)
      (((lines.zipIdx index).map fun (line, i) => Section.readLine (i + 2) line).filterMap
        fun line => line.skipped?.map fun (number, fault) => skippedEntry path number fault) := by
  induction lines generalizing index with
  | nil => exact Logs.pure []
  | cons line lines ih =>
    simp only [List.zipIdx_cons, List.map_cons, logLines]
    cases Section.readLine (index + 2) line with
    | blank => exact ih (index + 1)
    | row record => exact (ih (index + 1)).andThen (Logs.pure _)
    | skipped number fault => exact (ih (index + 1)).cons

/-- Reading the files of an archive logs every line that is skipped. -/
theorem logs_logFiles (files : List Archive.Entry) :
    Logs (logFiles files)
      ((files.filterMap section?).length, records (files.filterMap section?))
      (skipped (files.filterMap section?)) := by
  induction files with
  | nil => exact Logs.pure _
  | cons file files ih =>
    cases hsection : section? file with
    | none =>
      simp only [logFiles, hsection, List.filterMap_cons]
      exact ih
    | some s =>
      simp only [logFiles, hsection, List.filterMap_cons]
      exact (logs_logLines s.path 0 _).bind (ih.andThen (Logs.pure _))

/-- Reading an archive logs what is traced of it. -/
theorem logs_logArchive (archive : Bytes) (kind : DatasetKind) :
    Logs (logArchive archive kind) (ofArchive archive kind).1 (ofArchive archive kind).2 := by
  unfold logArchive ofArchive
  split
  · cases files archive with
    | error fault => exact Logs.pure _
    | ok files => exact (logs_logFiles files).andThen (Logs.pure _)
  · exact Logs.pure _

end Import

/-! ## Stores -/

/-- A store that logs what it traces and does what it does without. -/
structure Faithful (σ : Type) [Store σ] [LoggedStore σ] : Prop where
  add : ∀ (s : σ) (now id : String) (archive : Bytes) (kind : DatasetKind),
    Logs (LoggedStore.logAdd s now id archive kind)
      ((Store.add s now id archive kind).result, (Store.add s now id archive kind).store)
      (Store.add s now id archive kind).trace
  list : ∀ s : σ, Logs (LoggedStore.logList s) (Store.list s).infos (Store.list s).trace

/-- An import into memory logs what is traced of it. -/
theorem MemoryStore.logs_logAdd (s : MemoryStore) (id : String) (archive : Bytes)
    (kind : DatasetKind) :
    Logs (s.logAdd id archive kind)
      ((s.add id archive kind).result, (s.add id archive kind).store)
      (s.add id archive kind).trace := by
  unfold logAdd add
  cases s.obstacle? id with
  | some error => exact Logs.pure _
  | none =>
    have himport := Import.logs_logArchive archive kind
    generalize Import.ofArchive archive kind = imported at himport
    obtain ⟨result, trace⟩ := imported
    cases result with
    | error fault => exact himport.andThen (Logs.pure _)
    | ok records => exact himport.andThen (Logs.pure _)

/-- The store in memory logs what it traces. -/
theorem faithful_memory : Faithful MemoryStore where
  add s _ := s.logs_logAdd
  list _ := Logs.pure _

namespace Disk

/-- An import into a directory logs what is traced of it. -/
theorem logs_logAdd (d : Directory) (now id : String) (archive : Bytes) (kind : DatasetKind) :
    Logs (logAdd d now id archive kind)
      ((add d now id archive kind).result, (add d now id archive kind).store)
      (add d now id archive kind).trace := by
  unfold logAdd add
  cases obstacle? d id with
  | some error => exact Logs.pure _
  | none =>
    have himport := Import.logs_logArchive archive kind
    generalize Import.ofArchive archive kind = imported at himport
    obtain ⟨result, trace⟩ := imported
    cases result with
    | error fault => exact himport.andThen (Logs.pure _)
    | ok records => exact himport.andThen (Logs.pure _)

/-- A listing logs every manifest that cannot be read. -/
theorem logs_logInfos (files : List (String × Option Bytes)) :
    Logs (logInfos files) (files.filterMap infoOf?) (files.filterMap unreadable?) := by
  induction files with
  | nil => exact Logs.pure []
  | cons file files ih =>
    obtain ⟨name, file⟩ := file
    simp only [logInfos, List.filterMap_cons, infoOf?, unreadable?]
    split
    · cases readManifest file with
      | ok manifest => exact ih.andThen (Logs.pure _)
      | error error => exact ih.cons
    · exact ih

/-- The listing of a directory logs what is traced of it. -/
theorem logs_logList (d : Directory) : Logs (logList d) (list d).infos (list d).trace :=
  (logs_logInfos d.entries).andThen (Logs.pure _)

end Disk

/-- The store on disk logs what it traces. -/
theorem faithful_disk : Faithful Directory where
  add := Disk.logs_logAdd
  list := Disk.logs_logList

end CourseQuery
