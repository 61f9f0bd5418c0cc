import CourseQuery.Proofs.Json.ReadsBack
import CourseQuery.Service.Request

/-!
# Requests read back

The line of a request is read as the request, whatever its texts are.
-/

set_option autoImplicit false

namespace CourseQuery.Service.Request

open Json (only? valuesOf)

/-- The object of a request can be read back. -/
theorem readable_toJson (r : Request) : r.toJson.Readable := by
  refine .object fun m hm => ?_
  rcases List.mem_cons.1 hm with rfl | hm
  · exact .string _
  · obtain ⟨⟨name, v⟩, -, rfl⟩ := List.mem_map.1 hm
    exact .string _

/-- The object of a request is not too deep. -/
theorem depth_toJson (r : Request) : r.toJson.depth ≤ greatestDepth := by
  cases r <;> simp [toJson, parameters, Json.depth, Json.depthOfMembers, greatestDepth]

/-- The object of a request is read as the request. -/
theorem ofJson?_toJson (r : Request) : ofJson? r.toJson = some r := by
  cases r <;>
    simp [ofJson?, toJson, operation, parameters, text?, textOr?, ofMembers?, only?, valuesOf,
      Json.string?]

/-- A request is read back from its line. -/
theorem parse?_text (r : Request) : parse? r.text = some r := by
  have hread : Json.parse? r.text = some r.toJson := Json.parse?_text r.readable_toJson
  simp only [parse?, hread, Option.bind_eq_bind, Option.bind_some, if_pos r.depth_toJson,
    ofJson?_toJson]

end CourseQuery.Service.Request
