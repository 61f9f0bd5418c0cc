import CourseQuery.Number.Numeral
import CourseQuery.Record
import CourseQuery.Text.Blank
import CourseQuery.Text.Split

/-!
# Sections of course rows

A section is a text whose first line is a header and whose other lines are rows of columns between
`|`. A row has at least ten columns, in the order title, uuid, instructor, audit, year, id, pass,
fail, average and department; the year is not kept and further columns are not looked at. Counts are
integers and the average is a finite number, all read without the blanks around them; the texts are
kept as they are. Every line behind the header is blank, a record, or a row with a fault.
-/

set_option autoImplicit false

namespace CourseQuery.Section

/-- How many columns a row needs. -/
def columnCount : Nat := 10

/-- Why a line is no row. -/
inductive RowFault where
  | columns (found : Nat)
  | count (field : Field) (raw : String)
  | average (raw : String)
deriving DecidableEq, Repr

/-- The wording of a fault. -/
def RowFault.message : RowFault → String
  | columns found => s!"expected {columnCount} columns, found {found}"
  | count field raw => s!"{field.name} '{raw}' is not an integer"
  | average raw => s!"Average '{raw}' is not a number"

/-- Reads a count, which becomes the nearest number. -/
def readCount (field : Field) (raw : String) : Except RowFault Binary64 :=
  match int64? (Text.trim raw) with
  | some i => .ok (.ofInt i)
  | none => .error (.count field raw)

/-- Reads an average. -/
def readAverage (raw : String) : Except RowFault Binary64 :=
  match Binary64.ofGeneral? (Text.trim raw) with
  | some x => if x.isFinite then .ok x else .error (.average raw)
  | none => .error (.average raw)

/-- Reads the columns of a row. Of several faults the first in the order audit, pass, fail, average
counts. -/
def readColumns : List String → Except RowFault Record
  | title :: uuid :: instructor :: audit :: _ :: id :: pass :: fail :: average :: dept :: _ => do
    let audit ← readCount .audit audit
    let pass ← readCount .pass pass
    let fail ← readCount .fail fail
    let average ← readAverage average
    .ok (Record.ofCells
      [(.title, .text title), (.uuid, .text uuid), (.instructor, .text instructor),
       (.audit, .number audit), (.id, .text id), (.pass, .number pass), (.fail, .number fail),
       (.average, .number average), (.department, .text dept)])
  | columns => .error (.columns columns.length)

/-- Reads a row. -/
def readRow (line : String) : Except RowFault Record :=
  readColumns ((Text.split '|' line.toList).map String.ofList)

/-- A line without one carriage return at its end. -/
def withoutReturn (line : List Char) : List Char :=
  if line.getLast? = some '\r' then line.dropLast else line

/-- What a line of a section is. -/
inductive Line where
  | blank
  | row (record : Record)
  | skipped (number : Nat) (fault : RowFault)

/-- Reads a line, which is the one with the given number. -/
def readLine (number : Nat) (line : List Char) : Line :=
  let line := withoutReturn line
  if line.all Text.isBlank then .blank
  else
    match readRow (String.ofList line) with
    | .ok record => .row record
    | .error fault => .skipped number fault

/-- The lines of a section behind its header, numbered from 1 with the header. -/
def lines (text : String) : List Line :=
  ((Text.split '\n' text.toList).drop 1).zipIdx.map fun (line, i) => readLine (i + 2) line

/-- The record of a line, if it is a row. -/
def Line.record? : Line → Option Record
  | row record => some record
  | _ => none

/-- The number and the fault of a line, if it was skipped. -/
def Line.skipped? : Line → Option (Nat × RowFault)
  | skipped number fault => some (number, fault)
  | _ => none

end CourseQuery.Section
