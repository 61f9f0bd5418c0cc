import CourseQuery.Bytes
import CourseQuery.Number.Numeral
import CourseQuery.Text.Utf8

/-!
# Extended headers of a tar archive

An extended header states more about the member behind it, one line `LENGTH NAME=VALUE` for each
statement. The path is the first one that is stated, whatever the other lines are like; a size
counts only if all the lines before it keep the form.
-/

set_option autoImplicit false

namespace CourseQuery.Tar

/-- Reads a number in base ten, which may have a plus sign. -/
def decimal? (bytes : Bytes) : Option Nat := do
  let text ← Text.Utf8.decode? bytes
  let digits := match text.toList with
    | '+' :: digits => digits
    | digits => digits
  if Numeral.allDigits digits then some (Numeral.digitsValue digits) else none

/-- A name and its value. -/
structure Statement where
  name : Bytes
  value : Bytes
deriving DecidableEq, Repr

/-- Reads one line of an extended header, whose length counts its end. -/
def Statement.read? (line : Bytes) : Option Statement := do
  let (length, rest) := line.span (· ≠ UInt8.ofNat ' '.toNat)
  let (name, value) := (rest.drop 1).span (· ≠ UInt8.ofNat '='.toNat)
  let stated ← decimal? length
  if stated = line.length + 1 ∧ value ≠ [] then some ⟨name, value.drop 1⟩ else none

/-- The lines of an extended header up to the first empty one; `line` is the one at hand, its last
byte first. -/
def extensionLines (line : Bytes) : Bytes → List Bytes
  | [] => if line.isEmpty then [] else [line.reverse]
  | b :: rest =>
    if b = UInt8.ofNat '\n'.toNat then
      if line.isEmpty then [] else line.reverse :: extensionLines [] rest
    else extensionLines (b :: line) rest

/-- The statements of an extended header, none for a line that breaks the form. -/
def statements (data : Bytes) : List (Option Statement) :=
  (extensionLines [] data).map Statement.read?

/-- The value that the first statement about a name gives. -/
def valueOf? (name : String) (statements : List Statement) : Option Bytes :=
  (statements.find? (·.name = Bytes.ofAscii name)).map Statement.value

/-- The path that an extended header states. -/
def statedPath? (data : Bytes) : Option Bytes :=
  valueOf? "path" ((statements data).filterMap id)

/-- The size that an extended header states, as far as eight bytes hold it. -/
def statedSize? (data : Bytes) : Option Nat := do
  let sound := ((statements data).takeWhile Option.isSome).filterMap id
  let size ← decimal? (← valueOf? "size" sound)
  if size < UInt64.size then some size else none

end CourseQuery.Tar
