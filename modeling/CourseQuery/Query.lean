import CourseQuery.Filter.Expression

/-!
# Queries

A query names a dataset, filters its records, shows some of the fields and may sort by one of them.
The type holds only sensible queries: some field is shown, the shown fields stand in the order of
the fields without repetition, and a sort field is among them. `Query.ofParts` builds one or says
which of these fails.
-/

set_option autoImplicit false

namespace CourseQuery

namespace Field

/-- The fields of a list in the order of the fields, each once. -/
def ordered (fields : List Field) : List Field :=
  all.filter fun f => f ∈ fields

/-- Every field is among all fields. -/
theorem mem_all (f : Field) : f ∈ all := by
  cases f <;> decide

/-- Putting fields in order neither adds nor drops one. -/
theorem mem_ordered {f : Field} {fields : List Field} : f ∈ ordered fields ↔ f ∈ fields := by
  simp [ordered, mem_all]

/-- Fields in order stay as they are. -/
theorem ordered_ordered (fields : List Field) : ordered (ordered fields) = ordered fields := by
  simp [ordered, mem_all]

end Field

/-- A query for records of one dataset. -/
structure Query where
  dataset : String
  filter : Filter
  /-- The fields that are shown. -/
  display : List Field
  /-- The field by which the records are sorted, smallest first. -/
  sort : Option Field
  display_ne_nil : display ≠ []
  display_ordered : Field.ordered display = display
  sort_mem : ∀ f ∈ sort, f ∈ display
deriving DecidableEq

namespace Query

/-- Why parts make no query. -/
inductive Fault where
  | nothingShown
  | sortNotShown (field : Field)
deriving DecidableEq, Repr

/-- The query with the given parts, the shown fields in any order. -/
def ofParts (dataset : String) (filter : Filter) (display : List Field) (sort : Option Field) :
    Except Fault Query :=
  if hd : Field.ordered display = [] then .error .nothingShown
  else
    match sort with
    | none =>
      .ok ⟨dataset, filter, Field.ordered display, none, hd, Field.ordered_ordered _, by simp⟩
    | some f =>
      if hf : f ∈ Field.ordered display then
        .ok ⟨dataset, filter, Field.ordered display, some f, hd, Field.ordered_ordered _,
          by simp only [Option.mem_some_iff, forall_eq']; exact hf⟩
      else .error (.sortNotShown f)

end Query

end CourseQuery
