import CourseQuery.Catalog
import CourseQuery.Dataset.Store

/-!
# The store in memory

Datasets are kept in a catalog by id. What a listing tells of a dataset is read off the dataset, so
it cannot disagree with the records.
-/

set_option autoImplicit false

namespace CourseQuery

/-- A dataset without its id. -/
structure Dataset where
  kind : DatasetKind
  records : List Record

/-- What a listing tells about a dataset. -/
def Dataset.info (id : String) (d : Dataset) : DatasetInfo :=
  ⟨id, d.kind, d.records.length⟩

/-- A store in memory. -/
structure MemoryStore where
  datasets : Catalog Dataset

namespace MemoryStore

/-- The store without datasets. -/
def empty : MemoryStore := ⟨.empty⟩

instance : Inhabited MemoryStore := ⟨empty⟩

/-- The records of a dataset. -/
def load (s : MemoryStore) (id : String) : Except StoreError (List Record) :=
  match s.datasets.find? id with
  | some dataset => .ok dataset.records
  | none => .error (.notFound id)

/-- Why nothing can be stored under an id, if so. -/
def obstacle? (s : MemoryStore) (id : String) : Option StoreError :=
  match StoreError.ofId? id with
  | some error => some error
  | none => if s.datasets.contains id then some (.exists id) else none

/-- The store with one more dataset. -/
def put (s : MemoryStore) (id : String) (d : Dataset) : MemoryStore :=
  ⟨s.datasets.insert id d⟩

/-- Stores records under an id that is free. -/
def insertRecords (s : MemoryStore) (id : String) (d : Dataset) :
    Except StoreError (DatasetInfo × MemoryStore) :=
  match s.obstacle? id with
  | some error => .error error
  | none => .ok (d.info id, s.put id d)

/-- Imports an archive under an id that is free. -/
def add (s : MemoryStore) (id : String) (archive : Bytes) (kind : DatasetKind) :
    Addition MemoryStore :=
  match s.obstacle? id with
  | some error => ⟨.error error, s, []⟩
  | none =>
    match Import.ofArchive archive kind with
    | (.error fault, trace) => ⟨.error (.importFailed fault), s, trace⟩
    | (.ok records, trace) =>
      let dataset : Dataset := ⟨kind, records⟩
      ⟨.ok (dataset.info id), s.put id dataset, trace⟩

/-- Drops a dataset. -/
def remove (s : MemoryStore) (id : String) : Removal MemoryStore :=
  if s.datasets.contains id then ⟨.ok (), ⟨s.datasets.erase id⟩⟩
  else ⟨.error (.notFound id), s⟩

/-- Every dataset, in the order of the ids. -/
def list (s : MemoryStore) : Listing :=
  ⟨s.datasets.entries.map fun (id, dataset) => dataset.info id, []⟩

end MemoryStore

/-- The time of an import does not matter in memory. -/
instance : Store MemoryStore where
  load := MemoryStore.load
  add s _ := s.add
  remove := MemoryStore.remove
  list := MemoryStore.list

end CourseQuery
