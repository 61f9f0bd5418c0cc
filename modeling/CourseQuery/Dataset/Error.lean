import CourseQuery.DatasetId
import CourseQuery.Import.Archive

/-!
# Why a store refuses

Four of the errors are the caller's: no dataset under an id, one already there, an id that cannot
be used, an archive that cannot be imported. The others say that something stored is damaged or
cannot be reached.
-/

set_option autoImplicit false

namespace CourseQuery

/-- Why an id cannot be used. -/
inductive IdFault where
  | sentence (fault : DatasetId.Fault)
  /-- The id could name a file elsewhere. -/
  | path
deriving DecidableEq, Repr

/-- The wording of a fault. -/
def IdFault.message (id : String) : IdFault → String
  | sentence fault => fault.message id
  | path => "must not contain path separators or start with '.'"

/-- How a stored dataset is damaged. -/
inductive Corruption where
  | manifest (reason : String)
  | checksum
  | records (reason : String)
  | rowCount (listed found : Nat)
  | record (position : Nat) (defect : Record.Defect)
  /-- A damage in the words of the caller. -/
  | stated (reason : String)
deriving DecidableEq, Repr

/-- The wording of a damage. -/
def Corruption.message : Corruption → String
  | manifest reason => s!"unreadable manifest: {reason}"
  | checksum => "records checksum mismatch"
  | records reason => reason
  | rowCount listed found => s!"manifest lists {listed} rows, found {found}"
  | record position defect => s!"record {position}: {defect.schemaMessage}"
  | stated reason => reason

/-- Why a store refuses. -/
inductive StoreError where
  | notFound (id : String)
  | exists (id : String)
  | invalidId (id : String) (fault : IdFault)
  | importFailed (fault : Import.Fault)
  | corrupt (id : String) (damage : Corruption)
  | access (reason : String)
  | document (reason : String)
deriving DecidableEq, Repr

namespace StoreError

/-- The code of an error. -/
def code : StoreError → String
  | notFound _ => "CQ_DATASET_NOT_FOUND"
  | .exists _ => "CQ_DATASET_EXISTS"
  | invalidId .. => "CQ_INVALID_DATASET_ID"
  | importFailed _ => "CQ_IMPORT_FAILED"
  | corrupt .. => "CQ_DATASET_CORRUPT"
  | access _ => "CQ_STORE_IO"
  | document _ => "CQ_STORE_JSON"

/-- Whether the request is to blame. -/
def isClientError : StoreError → Bool
  | notFound _ | .exists _ | invalidId .. | importFailed _ => true
  | corrupt .. | access _ | document _ => false

/-- The wording of an error. -/
def message : StoreError → String
  | notFound id => s!"Dataset not found: {id}"
  | .exists id => s!"Dataset already exists: {id}"
  | invalidId id fault => s!"Invalid dataset id '{id}': {fault.message id}"
  | importFailed fault => s!"Import failed: {fault.message}"
  | corrupt id damage => s!"Dataset '{id}' is corrupt: {damage.message}"
  | access reason => s!"I/O error: {reason}"
  | document reason => s!"JSON error: {reason}"

/-- The error of an id that cannot stand in a sentence, if it cannot. -/
def ofId? (id : String) : Option StoreError :=
  (DatasetId.fault? id).map fun fault => invalidId id (.sentence fault)

end StoreError

/-- The kind with a name, or the error that there is none. -/
def DatasetKind.ofName (s : String) : Except StoreError DatasetKind :=
  match ofName? s with
  | some kind => .ok kind
  | none => .error (.importFailed (.unknownKind s))

end CourseQuery
