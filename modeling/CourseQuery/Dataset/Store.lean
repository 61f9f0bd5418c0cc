import CourseQuery.Dataset.Error
import CourseQuery.Trace.Entry

/-!
# Stores

A store keeps datasets under their ids. It gives back the records of a dataset as they were
imported, takes in archives, drops datasets and lists what it keeps. No operation but adding and
removing changes a store.
-/

set_option autoImplicit false

namespace CourseQuery

/-- What comes of importing an archive into a store. -/
structure Addition (σ : Type) where
  result : Except StoreError DatasetInfo
  store : σ
  trace : List Trace.Entry

/-- What comes of dropping a dataset. -/
structure Removal (σ : Type) where
  result : Except StoreError Unit
  store : σ

/-- What a listing shows, and what it traces. -/
structure Listing where
  infos : List DatasetInfo
  trace : List Trace.Entry

/-- The operations of a store. -/
class Store (σ : Type) where
  /-- The records of a dataset, in the order of the import. -/
  load : σ → (id : String) → Except StoreError (List Record)
  /-- Imports an archive under an id that is free, at a time. -/
  add : σ → (now id : String) → (archive : Bytes) → DatasetKind → Addition σ
  /-- Drops a dataset. -/
  remove : σ → (id : String) → Removal σ
  /-- Every dataset, in the order of the ids. -/
  list : σ → Listing

end CourseQuery
