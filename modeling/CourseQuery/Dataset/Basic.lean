/-!
# Datasets

A dataset is a list of records under an id. Archives can hold datasets of two kinds, of which only
course datasets can be stored.
-/

set_option autoImplicit false

namespace CourseQuery

/-- The kinds of dataset that have a name. -/
inductive DatasetKind where
  | courses
  /-- Known, but not to be stored. -/
  | rooms
deriving DecidableEq, Repr

namespace DatasetKind

/-- The name of a kind. -/
def name : DatasetKind → String
  | courses => "courses"
  | rooms => "rooms"

/-- The kind with a name. -/
def ofName? (s : String) : Option DatasetKind :=
  if s = "courses" then some courses else if s = "rooms" then some rooms else none

end DatasetKind

/-- What a listing tells about a dataset. -/
structure DatasetInfo where
  id : String
  kind : DatasetKind
  rows : Nat
deriving DecidableEq, Repr

end CourseQuery
