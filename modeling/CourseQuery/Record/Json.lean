import CourseQuery.Record
import CourseQuery.Json.Reader
import CourseQuery.Json.Writer

/-!
# Records as JSON

A record is written as an object whose names are the keys of its fields, in the order of the fields.
A number is written as an integer when it is whole and below 2^53, so that `120` is not `120.0` and
negative zero is `0`; infinities and NaN become `null`. Reading takes any object of numbers and
strings whose names are keys, in any order, the last of a repeated name counting.
-/

set_option autoImplicit false

namespace CourseQuery

/-- A cell as a JSON value. -/
def Cell.toJson : Cell → Json
  | .text s => .string s
  | .number x =>
    match x.toInt? with
    | some i => if i.natAbs < 2 * binade then .integer i else .real x
    | none => if x.isFinite then .real x else .null

/-- The cell that a JSON value stands for, if it is a number or a string. -/
def Cell.ofJson? : Json → Option Cell
  | .string s => some (.text s)
  | v => v.number?.map .number

namespace Record

/-- A record as a JSON object. -/
def toJson (r : Record) : Json :=
  .object (r.cells.map fun (f, c) => (f.key, c.toJson))

/-- The JSON text of a record. -/
def text (r : Record) : String :=
  r.toJson.text

/-- Why a JSON text is no record. -/
inductive ReadFault where
  /-- It is not an object of numbers and strings. -/
  | form
  /-- Some name is no key; this is the first such name in the order of texts. -/
  | unknownKey (name : String)
deriving DecidableEq, Repr

/-- The first name in the order of texts that is no key. -/
def firstUnknown? (names : List String) : Option String :=
  ((names.filter fun n => (Field.ofKey? n).isNone).mergeSort fun a b => decide (a ≤ b)).head?

/-- The record that a JSON value stands for. All values are looked at before any name is. -/
def ofJson (v : Json) : Except ReadFault Record :=
  match v with
  | .object members =>
    match members.mapM fun (name, v) => (Cell.ofJson? v).map fun c => (name, c) with
    | none => .error .form
    | some cells =>
      match firstUnknown? (cells.map Prod.fst) with
      | some name => .error (.unknownKey name)
      | none =>
        .ok (ofCells (cells.filterMap fun (name, c) => (Field.ofKey? name).map fun f => (f, c)))
  | _ => .error .form

/-- The record that a JSON text stands for. A name that is no key is reported even when something
follows the object. -/
def parse (s : String) : Except ReadFault Record :=
  match Json.parseFront? s with
  | none => .error .form
  | some (v, rest) =>
    match ofJson v with
    | .error fault => .error fault
    | .ok r => if rest.all Json.isSpace then .ok r else .error .form

/-- The JSON text of a list of records. -/
def textOfList (records : List Record) : String :=
  (Json.array (records.map toJson)).text

/-- The records that a JSON text lists. -/
def listOfText? (s : String) : Option (List Record) :=
  match Json.parse? s with
  | some (.array vs) => vs.mapM fun v => (ofJson v).toOption
  | _ => none

end Record

end CourseQuery
