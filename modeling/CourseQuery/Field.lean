/-!
# The fields of a course record

A record has nine fields. Each has the name that sentences use, the key that stored records use, and
the kind of cell that it holds. The order of the constructors is the order in which a record shows
its cells.
-/

set_option autoImplicit false

namespace CourseQuery

/-- The two kinds of cell. -/
inductive CellKind where
  | number
  | text
deriving DecidableEq, Repr

/-- The name of a kind in a message. -/
def CellKind.name : CellKind → String
  | number => "number"
  | text => "text"

/-- The fields of a course record, in the order in which they are shown. -/
inductive Field where
  | department
  | id
  | average
  | instructor
  | title
  | pass
  | fail
  | audit
  | uuid
deriving DecidableEq, Repr

namespace Field

/-- Every field, in order. -/
def all : List Field :=
  [department, id, average, instructor, title, pass, fail, audit, uuid]

/-- The place of a field in the order. -/
def index : Field → Nat
  | department => 0
  | id => 1
  | average => 2
  | instructor => 3
  | title => 4
  | pass => 5
  | fail => 6
  | audit => 7
  | uuid => 8

/-- The name of a field in a sentence. -/
def name : Field → String
  | department => "Department"
  | id => "ID"
  | average => "Average"
  | instructor => "Instructor"
  | title => "Title"
  | pass => "Pass"
  | fail => "Fail"
  | audit => "Audit"
  | uuid => "UUID"

/-- The key of a field in a stored record. -/
def key : Field → String
  | department => "courses_dept"
  | id => "courses_id"
  | average => "courses_avg"
  | instructor => "courses_instructor"
  | title => "courses_title"
  | pass => "courses_pass"
  | fail => "courses_fail"
  | audit => "courses_audit"
  | uuid => "courses_uuid"

/-- The kind of cell a field holds. -/
def kind : Field → CellKind
  | average | pass | fail | audit => .number
  | department | id | instructor | title | uuid => .text

/-- The field with a name; upper and lower case differ. -/
def ofName? (s : String) : Option Field :=
  all.find? fun f => f.name = s

/-- The field with a key. -/
def ofKey? (s : String) : Option Field :=
  all.find? fun f => f.key = s

end Field

end CourseQuery
