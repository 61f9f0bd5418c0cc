import CourseQuery.Number.Binary64

/-!
# JSON values

Requests, responses, stored records, manifests and settings are JSON documents. Whole numbers are
kept apart from the others, since some members must be written as integers, and the members of an
object keep their order and their repetitions, since a reader may have to refuse a repetition.
-/

set_option autoImplicit false

namespace CourseQuery

/-- A JSON value. -/
inductive Json where
  | null
  | bool (b : Bool)
  | integer (i : Int)
  | real (x : Binary64)
  | string (s : String)
  | array (elements : List Json)
  | object (members : List (String × Json))

namespace Json

instance : Inhabited Json := ⟨null⟩

mutual

/-- How many arrays and objects lie inside one another. -/
def depth : Json → Nat
  | array elements => 1 + depthOfList elements
  | object members => 1 + depthOfMembers members
  | _ => 0

/-- The greatest depth in a list of values. -/
def depthOfList : List Json → Nat
  | [] => 0
  | v :: vs => max (depth v) (depthOfList vs)

/-- The greatest depth among the values of the members of an object. -/
def depthOfMembers : List (String × Json) → Nat
  | [] => 0
  | (_, v) :: ms => max (depth v) (depthOfMembers ms)

end

/-- The text of a string value. -/
def string? : Json → Option String
  | string s => some s
  | _ => none

/-- The number of a numeric value, an integer being the nearest one. -/
def number? : Json → Option Binary64
  | integer i => some (.ofInt i)
  | real x => some x
  | _ => none

/-- The value of an integer that is not negative and below `bound`. -/
def natBelow? (bound : Nat) : Json → Option Nat
  | integer i => if 0 ≤ i ∧ i < bound then some i.toNat else none
  | _ => none

/-- The values of the members with a name, in order. -/
def valuesOf (name : String) (members : List (String × Json)) : List Json :=
  (members.filter fun m => m.1 = name).map Prod.snd

/-- The value of the member with a name, if there is exactly one. -/
def only? (name : String) (members : List (String × Json)) : Option Json :=
  match valuesOf name members with
  | [v] => some v
  | _ => none

end Json

end CourseQuery
