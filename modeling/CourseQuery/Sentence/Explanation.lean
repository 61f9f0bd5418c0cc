import CourseQuery.Sentence.Reader
import CourseQuery.Json.Writer

/-!
# Explaining a sentence

An explanation says how a sentence was read, or why it was rejected, without looking at any dataset.
It can be written as a JSON object, which leaves out what does not apply, and as lines of text.
-/

set_option autoImplicit false

namespace CourseQuery

/-- How a sentence was read. -/
inductive Explanation where
  | accepted (query : Query)
  | rejected (rejection : Rejection)
deriving DecidableEq

namespace Explanation

/-- The explanation of a sentence. -/
def ofSentence (source : String) : Explanation :=
  match Sentence.read source with
  | .ok query => accepted query
  | .error rejection => rejected rejection

/-- The groups of a query as a person reads them. -/
def groups (query : Query) : List (List String) :=
  query.filter.groups.map fun group => group.map Predicate.shown

/-- The names of the shown fields. -/
def display (query : Query) : List String :=
  query.display.map Field.name

/-- A list of texts as a JSON array. -/
def texts (ss : List String) : Json :=
  .array (ss.map Json.string)

/-- The members of an explanation. -/
def members : Explanation → List (String × Json)
  | accepted query =>
    [("accepted", .bool true), ("dataset", .string query.dataset),
     ("groups", .array ((groups query).map texts)), ("display", texts (display query))] ++
      match query.sort with
      | none => []
      | some field => [("sort", .string s!"{field.name} ascending")]
  | rejected r =>
    [("accepted", .bool false), ("groups", .array []), ("display", .array []),
     ("rejection_clause", .string r.clause.name), ("rejection_code", .string r.code.text),
     ("rejection_reason", .string r.message)]

/-- An explanation as a JSON object. -/
def toJson (e : Explanation) : Json :=
  .object e.members

/-- The line of one group; the groups after the first begin with `or`. -/
def groupLine (first : Bool) (group : List String) : String :=
  if group.isEmpty then "  all entries"
  else (if first then "  " else "  or ") ++ String.intercalate " and " group

/-- The lines of the groups. -/
def groupLines : List (List String) → List String
  | [] => []
  | g :: gs => groupLine true g :: gs.map (groupLine false)

/-- The lines of an explanation. -/
def lines : Explanation → List String
  | accepted query =>
    ["Status: ACCEPTED", s!"Dataset: {query.dataset}", "Filter:"] ++ groupLines (groups query) ++
      ["Display: " ++ String.intercalate ", " (display query)] ++
      match query.sort with
      | none => []
      | some field => [s!"Sort: {field.name} ascending"]
  | rejected r =>
    ["Status: REJECTED", s!"Error Code: {r.code.text}", s!"Clause: {r.clause.name}",
     s!"Reason: {r.message}"]

/-- An explanation as text, each line with its end. -/
def shown (e : Explanation) : String :=
  String.join (("=== EXPLAIN QUERY ===" :: e.lines).map (· ++ "\n"))

end Explanation

end CourseQuery
