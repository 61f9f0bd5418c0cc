import CourseQuery.Json.Value

/-!
# Objects in the order of their names

A response shows the members of every object in the order of their names, so its text does not
depend on the order in which they were put together.
-/

set_option autoImplicit false

namespace CourseQuery.Json

/-- Members in the order of their names. -/
def sortByName (members : List (String × Json)) : List (String × Json) :=
  members.mergeSort fun a b => decide (a.1 ≤ b.1)

mutual

/-- A value whose objects all have their members in the order of the names. -/
def sorted : Json → Json
  | array elements => array (sortedElements elements)
  | object members => object (sortByName (sortedMembers members))
  | v => v

/-- The values of an array, each one sorted. -/
def sortedElements : List Json → List Json
  | [] => []
  | v :: vs => sorted v :: sortedElements vs

/-- The members of an object as they stand, the value of each one sorted. -/
def sortedMembers : List (String × Json) → List (String × Json)
  | [] => []
  | (name, v) :: ms => (name, sorted v) :: sortedMembers ms

end

end CourseQuery.Json
