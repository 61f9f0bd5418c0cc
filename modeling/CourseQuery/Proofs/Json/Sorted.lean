import CourseQuery.Json.Sorted
import CourseQuery.Proofs.Json.ReadsBack
import CourseQuery.Proofs.Text.Keys

/-!
# Sorting the members of a value

Sorting moves the members of objects and changes none: under each name there are the same values in
the same order. So what can be written can be written sorted, and a reader that looks up names does
not notice.
-/

set_option autoImplicit false

namespace CourseQuery.Json

/-- Elements are sorted one by one. -/
theorem sortedElements_eq_map (vs : List Json) : sortedElements vs = vs.map sorted := by
  induction vs with
  | nil => rfl
  | cons v vs ih => rw [sortedElements, ih, List.map_cons]

/-- Members are sorted inside one by one. -/
theorem sortedMembers_eq_map (ms : List (String × Json)) :
    sortedMembers ms = ms.map fun m => (m.1, m.2.sorted) := by
  induction ms with
  | nil => rfl
  | cons m ms ih =>
    obtain ⟨name, v⟩ := m
    rw [sortedMembers, ih, List.map_cons]

/-- Sorting by name neither adds nor drops members. -/
theorem mem_sortByName {m : String × Json} {ms : List (String × Json)} :
    m ∈ sortByName ms ↔ m ∈ ms :=
  (List.mergeSort_perm _ _).mem_iff

/-- The values under a name stay in their order. -/
theorem valuesOf_sortByName (name : String) (ms : List (String × Json)) :
    valuesOf name (sortByName ms) = valuesOf name ms :=
  congrArg (List.map Prod.snd) (Text.ofKey_mergeSort name ms)

/-- What is done to every value is done to the values under a name. -/
theorem valuesOf_map (φ : Json → Json) (name : String) (ms : List (String × Json)) :
    valuesOf name (ms.map fun m => (m.1, φ m.2)) = (valuesOf name ms).map φ := by
  rw [valuesOf, valuesOf, List.filter_map, List.map_map, List.map_map]
  rfl

/-- What can be written can be written sorted. -/
theorem Writable.sorted {v : Json} (h : v.Writable) : v.sorted.Writable := by
  induction h with
  | null => exact .null
  | bool b => exact .bool b
  | integer hi => exact .integer hi
  | real hx => exact .real hx
  | string s => exact .string s
  | @array vs _ ih =>
    rw [Json.sorted, sortedElements_eq_map]
    exact .array (List.forall_mem_map.2 ih)
  | @object ms _ ih =>
    rw [Json.sorted, sortedMembers_eq_map]
    refine .object fun m hm => ?_
    obtain ⟨m', hm', rfl⟩ := List.mem_map.1 (mem_sortByName.1 hm)
    exact ih m' hm'

end CourseQuery.Json
