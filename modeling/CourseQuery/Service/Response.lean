import CourseQuery.Json.Sorted
import CourseQuery.Json.Writer
import CourseQuery.Record.Json
import CourseQuery.Sentence.Explanation
import CourseQuery.Service.Error

/-!
# Responses

A response is a status and a body: a result, nothing, or an error. It is written as one line of
JSON. Inside a result the members of objects stand in the order of their names.
-/

set_option autoImplicit false

namespace CourseQuery

/-- What a listing tells about a dataset, as a JSON object. -/
def DatasetInfo.toJson (info : DatasetInfo) : Json :=
  .object [("id", .string info.id), ("kind", .string info.kind.name),
    ("num_rows", .integer info.rows)]

namespace Service

/-- What a caller gets back. -/
structure Response where
  status : Nat
  body : Json

namespace Response

/-- The response with a result. -/
def ofResult (v : Json) : Response :=
  ⟨200, .object [("result", v.sorted)]⟩

/-- The response to a request that has no result. -/
def noContent : Response :=
  ⟨204, .null⟩

/-- The response to a request that fails. -/
def ofError (e : Error) : Response :=
  ⟨e.status, .object [("error", .string e.coded)]⟩

/-- The response with records. -/
def ofRecords (records : List Record) : Response :=
  ofResult (.array (records.map Record.toJson))

/-- The response with a listing. -/
def ofInfos (infos : List DatasetInfo) : Response :=
  ofResult (.array (infos.map DatasetInfo.toJson))

/-- The response with an explanation. -/
def ofExplanation (e : Explanation) : Response :=
  ofResult e.toJson

/-- The response to a request that either fails or has some outcome. -/
def ofExcept {α : Type} (succeed : α → Response) : Except Error α → Response
  | .ok a => succeed a
  | .error e => ofError e

/-- A response as a JSON object. -/
def toJson (r : Response) : Json :=
  .object [("code", .integer r.status), ("body", r.body)]

/-- The line of a response, without its end. -/
def text (r : Response) : String :=
  r.toJson.text

end Response

end Service

end CourseQuery
