import CourseQuery.Query

/-!
# Answering a query over a list of records

The answer is found in three steps: the records that satisfy the filter are selected, they are
sorted if the query says so, and each is cut down to the fields that are shown. Records keep their
number in the list as they pass through, so that an answer can be traced to the records it shows. A
record that lacks a cell, or has one of the wrong kind, stops the step that needs it; the error
counts positions in the list that the step was given.
-/

set_option autoImplicit false

namespace CourseQuery

namespace Execution

/-- Why a query has no answer over a list of records. -/
inductive Error where
  /-- The record at a position has a defect. -/
  | defect (position : Nat) (defect : Record.Defect)
  | failed (reason : String)
deriving DecidableEq, Repr

namespace Error

/-- The code of an error. -/
def code : Error → String
  | defect .. => "CQ_SCHEMA_VIOLATION"
  | failed _ => "CQ_EXECUTION_FAILED"

/-- Whether an error shows that the records break their own rules. -/
def isFatal : Error → Bool
  | defect .. => true
  | failed _ => false

/-- The position of the record to blame. -/
def position? : Error → Option Nat
  | defect position _ => some position
  | failed _ => none

/-- The wording of an error. -/
def message : Error → String
  | defect position (.missing f) => s!"Record {position} has no value for '{f.key}'"
  | defect position (.wrongKind f found) =>
    s!"Record {position} field '{f.key}': expected {f.kind.name}, found {found.name}"
  | failed reason => reason

/-- The name of the gravity of an error. -/
def gravity (e : Error) : String :=
  if e.isFatal then "FATAL" else "ERROR"

/-- An error as a person reads it. -/
def shown (e : Error) : String :=
  s!"[{e.gravity}] {e.code}: {e.message}"

end Error

/-- A record with its number in the list it comes from. -/
structure Row where
  number : Nat
  record : Record

/-- Numbers a list of records from `start`. -/
def rowsFrom (start : Nat) : List Record → List Row
  | [] => []
  | r :: rs => ⟨start, r⟩ :: rowsFrom (start + 1) rs

/-- Whether the record of a row satisfies a filter; an error names the row. -/
def Row.test (filter : Filter) (row : Row) : Except Error Bool :=
  (filter.test row.record).mapError (.defect row.number)

/-- The rows that satisfy a filter, in order. -/
def selectRows (filter : Filter) : List Row → Except Error (List Row)
  | [] => .ok []
  | row :: rows => do
    let holds ← row.test filter
    let rest ← selectRows filter rows
    .ok (if holds then row :: rest else rest)

/-- The records that satisfy a filter, as numbered rows. Everything is not tested at all. -/
def select (filter : Filter) (records : List Record) : Except Error (List Row) :=
  match filter with
  | .everything => .ok (rowsFrom 0 records)
  | filter => selectRows filter (rowsFrom 0 records)

/-- The order of two cells: numbers by value and texts by their characters. Cells that do not
compare, such as a NaN and any number, stand as they are. -/
def inOrder : Option Cell → Option Cell → Bool
  | some (.number x), some (.number y) => !y.less x
  | some (.text s), some (.text t) => decide (s ≤ t)
  | _, _ => true

/-- The first row, counted from `position`, whose cell of a field is missing or of another kind. -/
def firstDefect? (field : Field) (position : Nat) : List Row → Option Error
  | [] => none
  | row :: rows =>
    match row.record.defectAt? field with
    | some defect => some (.defect position defect)
    | none => firstDefect? field (position + 1) rows

/-- Sorts rows by a field, smallest first, equal ones staying as they are. -/
def sortRows (field : Field) (rows : List Row) : Except Error (List Row) :=
  match firstDefect? field 0 rows with
  | some error => .error error
  | none => .ok (rows.mergeSort fun a b => inOrder (a.record.cell field) (b.record.cell field))

/-- The part of a record on some fields, all of which it must have. -/
def project (fields : List Field) (position : Nat) (r : Record) : Except Error Record :=
  match fields.find? fun f => (r.cell f).isNone with
  | some f => .error (.defect position (.missing f))
  | none => .ok (r.restrict fields)

/-- The parts of records on some fields, the first record standing at `position`. -/
def projectFrom (fields : List Field) (position : Nat) :
    List Record → Except Error (List Record)
  | [] => .ok []
  | r :: rs => do
    let part ← project fields position r
    let parts ← projectFrom fields (position + 1) rs
    .ok (part :: parts)

/-- The answer to a query. -/
structure Answer where
  records : List Record
  /-- How many records were looked at. -/
  scanned : Nat

/-- The rows of an answer in the order in which they are shown. -/
def arrange (query : Query) (records : List Record) : Except Error (List Row) := do
  let rows ← select query.filter records
  match query.sort with
  | none => .ok rows
  | some field => sortRows field rows

/-- The answer to a query over a list of records. -/
def run (query : Query) (records : List Record) : Except Error Answer := do
  let rows ← arrange query records
  let shown ← projectFrom query.display 0 (rows.map Row.record)
  .ok ⟨shown, records.length⟩

end Execution

end CourseQuery
