import CourseQuery.Base64
import CourseQuery.Json.Reader
import CourseQuery.Json.Writer
import CourseQuery.Service.Error
import CourseQuery.Text.Blank

/-!
# Requests

A request is one line of JSON: an object with the name of an operation under `op` and one member
for each parameter. An array of the operation and its parameters, in order, says the same. Members
that the operation does not know are passed over; those it knows must be texts and stand there
once, though the kind of an added dataset may be left out. The archive that is added comes in base
64.
-/

set_option autoImplicit false

namespace CourseQuery.Service

/-- What a caller asks for. -/
inductive Request where
  | query (sentence : String)
  | explain (sentence : String)
  | add (id kind content : String)
  | remove (id : String)
  | list
deriving DecidableEq, Repr

namespace Request

/-- How many arrays and objects may lie inside one another in a request. -/
def greatestDepth : Nat := 127

/-- The kind of an added dataset whose kind is left out. -/
def defaultKind : String := "courses"

/-- The name of an operation. -/
def operation : Request → String
  | query _ => "query"
  | explain _ => "explain"
  | add .. => "add"
  | remove _ => "remove"
  | list => "list"

/-- The parameters of a request with their names, in order. -/
def parameters : Request → List (String × String)
  | query sentence => [("query", sentence)]
  | explain sentence => [("query", sentence)]
  | add id kind content => [("id", id), ("kind", kind), ("content", content)]
  | remove id => [("id", id)]
  | list => []

/-- A request as a JSON object. -/
def toJson (r : Request) : Json :=
  .object (("op", .string r.operation) :: r.parameters.map fun (name, v) => (name, .string v))

/-- The line of a request. -/
def text (r : Request) : String :=
  r.toJson.text

/-- The text of a member that must be there once. -/
def text? (name : String) (members : List (String × Json)) : Option String :=
  (Json.only? name members).bind Json.string?

/-- The text of a member that may be left out. -/
def textOr? (fallback name : String) (members : List (String × Json)) : Option String :=
  if (Json.valuesOf name members).isEmpty then some fallback else text? name members

/-- The request with an operation and members. -/
def ofMembers? (operation : String) (members : List (String × Json)) : Option Request :=
  if operation = "query" then (text? "query" members).map query
  else if operation = "explain" then (text? "query" members).map explain
  else if operation = "add" then do
    let id ← text? "id" members
    let kind ← textOr? defaultKind "kind" members
    let content ← text? "content" members
    some (add id kind content)
  else if operation = "remove" then (text? "id" members).map remove
  else if operation = "list" then some list
  else none

/-- The names of the parameters of an operation, in order. -/
def parameterNames (operation : String) : List String :=
  if operation = "query" ∨ operation = "explain" then ["query"]
  else if operation = "add" then ["id", "kind", "content"]
  else if operation = "remove" then ["id"]
  else []

/-- The request that a JSON value stands for. -/
def ofJson? : Json → Option Request
  | .object members => do ofMembers? (← text? "op" members) members
  | .array (.string operation :: values) =>
    let names := parameterNames operation
    if names.length = values.length then ofMembers? operation (names.zip values) else none
  | _ => none

/-- The request that a line spells. -/
def parse? (line : String) : Option Request := do
  let v ← Json.parse? line
  if v.depth ≤ greatestDepth then ofJson? v else none

end Request

/-- The archive that the content of a request spells. Blanks around it do not count. -/
def decodeContent (content : String) : Except Error Bytes :=
  match Base64.decode? (Text.trim content) with
  | some archive => .ok archive
  | none => .error .content

end CourseQuery.Service
