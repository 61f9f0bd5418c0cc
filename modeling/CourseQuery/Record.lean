import CourseQuery.Field
import CourseQuery.Number.Layout

/-!
# Cells and records

A record gives each field a cell or none. It is a function of the field, so that two records with
the same cells are the same record however they were filled. A stored record is *complete*: every
field has a cell, and each cell has the kind of its field. `Record.defect?` names the first field
for which this fails.
-/

set_option autoImplicit false

namespace CourseQuery

/-- One cell of a record. -/
inductive Cell where
  | number (x : Binary64)
  | text (s : String)
deriving DecidableEq, Repr

namespace Cell

/-- The kind of a cell. -/
def kind : Cell → CellKind
  | number _ => .number
  | text _ => .text

/-- A cell as a person reads it; a text stands in quotes as it is. -/
def shown : Cell → String
  | number x => x.plainText
  | text s => "\"" ++ s ++ "\""

/-- Equality of values: numbers by value, so that the zeros agree and a NaN differs from itself. -/
def equal : Cell → Cell → Bool
  | number x, number y => x.equal y
  | text s, text t => s == t
  | _, _ => false

end Cell

/-- A course record, whole or in part. -/
structure Record where
  /-- The cell of a field, if the record has one. -/
  cell : Field → Option Cell

namespace Record

/-- The record without cells. -/
def empty : Record := ⟨fun _ => none⟩

/-- Sets the cell of a field. -/
def insert (r : Record) (f : Field) (c : Cell) : Record :=
  ⟨fun g => if g = f then some c else r.cell g⟩

/-- The record with the given cells, a later one replacing an earlier one of the same field. -/
def ofCells (cells : List (Field × Cell)) : Record :=
  cells.foldl (fun r (f, c) => r.insert f c) empty

/-- The cells a record has, in the order of the fields. -/
def cells (r : Record) : List (Field × Cell) :=
  Field.all.filterMap fun f => (r.cell f).map fun c => (f, c)

/-- The fields that have a cell, in order. -/
def fields (r : Record) : List Field :=
  r.cells.map Prod.fst

/-- The part of a record on some of the fields. -/
def restrict (r : Record) (fields : List Field) : Record :=
  ⟨fun f => if f ∈ fields then r.cell f else none⟩

/-- Equality of values, cell by cell. -/
def equal (r s : Record) : Bool :=
  Field.all.all fun f =>
    match r.cell f, s.cell f with
    | some c, some d => c.equal d
    | none, none => true
    | _, _ => false

/-- What keeps a cell from being used: there is none, or it has the wrong kind. -/
inductive Defect where
  | missing (field : Field)
  | wrongKind (field : Field) (found : CellKind)
deriving DecidableEq, Repr

/-- The cell of a field, which must have the field's kind. -/
def defectAt? (r : Record) (f : Field) : Option Defect :=
  match r.cell f with
  | none => some (.missing f)
  | some c => if c.kind = f.kind then none else some (.wrongKind f c.kind)

/-- The first field that lacks a cell of its kind. -/
def defect? (r : Record) : Option Defect :=
  Field.all.findSome? r.defectAt?

/-- The message for a stored record that is not complete. -/
def Defect.schemaMessage : Defect → String
  | missing f => s!"missing field '{f.key}'"
  | wrongKind f found => s!"field '{f.key}': expected {f.kind.name}, got {found.name}"

end Record

end CourseQuery
