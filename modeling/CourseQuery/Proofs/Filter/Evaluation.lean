import CourseQuery.Execution
import CourseQuery.Proofs.Filter.Normal
import CourseQuery.Proofs.Steps

/-!
# Testing a filter by its groups

A filter is tested by recursion, or its groups are tested one after another. Both ways stop at the
first part that settles the answer. The groups of a conjunction repeat the predicates of its sides:
each group of the left side is tried with all of the right side, so a test of the groups can come
upon a predicate that cannot be tested where the recursion has settled the answer before. It is
never the other way round: an answer that the groups give is the answer of the recursion
(`test_of_testGroups`). In a filter that is folded from groups nothing is repeated, and there both
ways have the same answer, or fail in the same way (`test_ofGroups`).
-/

set_option autoImplicit false

namespace CourseQuery

namespace Filter

variable {r : Record} {b : Bool} {group : List Predicate} {stated : List (List Predicate)}

/-! ## Groups one after another -/

/-- A group is tested predicate by predicate up to the first that does not hold. -/
theorem testGroup_append (left right : List Predicate) (r : Record) :
    testGroup (left ++ right) r =
      match testGroup left r with
      | .ok true => testGroup right r
      | answer => answer := by
  induction left with
  | nil => rfl
  | cons p left ih =>
    rw [List.cons_append, testGroup, testGroup]
    rcases p.test r with defect | _ | _
    · rfl
    · rfl
    · exact ih

/-- Groups are tested one by one up to the first that holds. -/
theorem testGroups_append (left right : List (List Predicate)) (r : Record) :
    testGroups (left ++ right) r =
      match testGroups left r with
      | .ok false => testGroups right r
      | answer => answer := by
  induction left with
  | nil => rfl
  | cons group left ih =>
    rw [List.cons_append, testGroups, testGroups]
    rcases testGroup group r with defect | _ | _
    · rfl
    · exact ih
    · rfl

/-- One group is tested as itself. -/
theorem testGroups_singleton (group : List Predicate) (r : Record) :
    testGroups [group] r = testGroup group r := by
  rw [testGroups]
  rcases testGroup group r with defect | _ | _ <;> rfl

/-- Groups with a common front are tested as without it where the front holds, and none of them
holds where it does not. -/
theorem testGroups_map_append (front : List Predicate) (h : stated ≠ []) (r : Record) :
    testGroups (stated.map fun group => front ++ group) r =
      match testGroup front r with
      | .ok true => testGroups stated r
      | answer => answer := by
  induction stated with
  | nil => contradiction
  | cons group stated ih =>
    rw [List.map_cons, testGroups, testGroups, testGroup_append]
    cases stated with
    | nil =>
      rcases testGroup front r with defect | _ | _ <;> rfl
    | cons next stated =>
      rw [ih (List.cons_ne_nil _ _)]
      rcases testGroup front r with defect | _ | _ <;> rfl

/-! ## The groups of a conjunction -/

/-- When the groups of a conjunction have an answer, the left side has one, and where the left side
holds the right side has that answer. -/
theorem testGroups_flatMap {left right : List (List Predicate)} (hright : right ≠ [])
    (h : testGroups (left.flatMap fun l => right.map fun r => l ++ r) r = .ok b) :
    (testGroups left r = .ok false ∧ b = false) ∨
      (testGroups left r = .ok true ∧ testGroups right r = .ok b) := by
  induction left with
  | nil =>
    obtain rfl := Except.ok.inj h
    exact .inl ⟨rfl, rfl⟩
  | cons l left ih =>
    rw [List.flatMap_cons, testGroups_append, testGroups_map_append l hright] at h
    rw [testGroups]
    rcases hl : testGroup l r with defect | _ | _
    · rw [hl] at h
      contradiction
    · rw [hl] at h
      exact ih h
    · rw [hl] at h
      refine .inr ⟨rfl, ?_⟩
      rcases hr : testGroups right r with defect | _ | _
      · rw [hr] at h
        contradiction
      · -- the other groups of the left side are tried too, with a right side that does not hold
        rw [hr] at h
        rcases ih h with ⟨-, rfl⟩ | ⟨-, hb⟩
        · rfl
        · rw [← hr, hb]
      · rw [hr] at h
        exact h

/-- An answer that the groups of a filter give is that of the filter. -/
theorem test_of_testGroups {e : Filter} (h : testGroups e.groups r = .ok b) :
    e.test r = .ok b := by
  induction e generalizing b with
  | everything => exact h
  | atom p =>
    rw [groups, testGroups_singleton, testGroup] at h
    rw [test]
    rcases hp : p.test r with defect | _ | _
    · rw [hp] at h
      contradiction
    · rw [hp] at h
      exact h
    · rw [hp] at h
      exact h
  | and x y ihx ihy =>
    rw [test]
    rcases testGroups_flatMap y.groups_ne_nil h with ⟨hleft, rfl⟩ | ⟨hleft, hright⟩
    · rw [ihx hleft]
    · rw [ihx hleft]
      exact ihy hright
  | or x y ihx ihy =>
    rw [groups, testGroups_append] at h
    rw [test]
    rcases hleft : testGroups x.groups r with defect | _ | _
    · rw [hleft] at h
      contradiction
    · rw [hleft] at h
      rw [ihx hleft]
      exact ihy h
    · rw [hleft] at h
      rw [ihx hleft]
      exact h

/-! ## Filters folded from groups -/

/-- A conjunction that is built from the left is tested as its predicates in order. -/
theorem test_foldl_and (e : Filter) (ps : List Predicate) (r : Record) :
    ((ps.map atom).foldl and e).test r =
      match e.test r with
      | .ok true => testGroup ps r
      | answer => answer := by
  induction ps generalizing e with
  | nil =>
    change e.test r = _
    rcases e.test r with defect | _ | _ <;> rfl
  | cons p ps ih =>
    rw [List.map_cons, List.foldl_cons, ih, test, test, testGroup]
    rcases e.test r with defect | _ | _ <;> rfl

/-- The expression of a group is tested as the group is. -/
theorem test_joinGroup (h : group ≠ []) :
    ∃ e, join? and (group.map atom) = some e ∧ ∀ r, e.test r = testGroup group r := by
  cases group with
  | nil => contradiction
  | cons p ps =>
    exact ⟨_, rfl, fun r => test_foldl_and (atom p) ps r⟩

/-- A disjunction that is built from the left is tested as its groups in order. -/
theorem test_foldl_or (e : Filter) (h : ∀ group ∈ stated, group ≠ []) (r : Record) :
    ((stated.filterMap fun group => join? and (group.map atom)).foldl or e).test r =
      match e.test r with
      | .ok false => testGroups stated r
      | answer => answer := by
  induction stated generalizing e with
  | nil =>
    change e.test r = _
    rcases e.test r with defect | _ | _ <;> rfl
  | cons group stated ih =>
    obtain ⟨hgroup, hstated⟩ := List.forall_mem_cons.1 h
    obtain ⟨g, hjoin, hg⟩ := test_joinGroup hgroup
    simp only [List.filterMap_cons, hjoin, List.foldl_cons]
    rw [ih _ hstated, test, hg, testGroups]
    rcases e.test r with defect | _ | _ <;> rfl

/-- The expression of groups of which none is empty is tested as the groups are. -/
theorem test_ofGroups (hne : stated ≠ []) (h : ∀ group ∈ stated, group ≠ []) (r : Record) :
    (ofGroups stated).test r = testGroups stated r := by
  cases stated with
  | nil => contradiction
  | cons group stated =>
    obtain ⟨hgroup, hstated⟩ := List.forall_mem_cons.1 h
    obtain ⟨g, hjoin, hg⟩ := test_joinGroup hgroup
    simp only [ofGroups, List.filterMap_cons, hjoin]
    rw [join?, Option.getD_some]
    refine (test_foldl_or g hstated r).trans ?_
    rw [hg, ← testGroups_singleton]
    exact (testGroups_append [group] stated r).symm

/-- A filter that is folded from groups is tested as its own groups are. -/
theorem test_ofGroups_eq (stated : List (List Predicate)) (r : Record) :
    (ofGroups stated).test r = testGroups (ofGroups stated).groups r := by
  rw [← ofGroups_filter]
  have hkept : ∀ group ∈ stated.filter (fun group => !group.isEmpty), group ≠ [] := by
    simp [List.mem_filter]
  by_cases hnil : stated.filter (fun group => !group.isEmpty) = []
  · rw [hnil]
    rfl
  · rw [groups_ofGroups hnil hkept, test_ofGroups hnil hkept]

end Filter

/-! ## Rows -/

namespace Execution

/-- Whether the record of a row satisfies some group; an error names the row. -/
def Row.testGroups (groups : List (List Predicate)) (row : Row) : Except Error Bool :=
  (Filter.testGroups groups row.record).mapError (.defect row.number)

/-- What the groups of a filter answer for a row is what the filter answers. So where the filter
cannot be tested on the row its groups cannot be tested either. A filter that is folded from groups
has the answer of its groups, or fails with their error. -/
theorem Row.test_agrees (e : Filter) (row : Row) :
    (∀ b, row.testGroups e.groups = .ok b → row.test e = .ok b) ∧
      (∀ error, row.test e = .error error →
        ∃ defect, row.testGroups e.groups = .error (.defect row.number defect)) ∧
      ∀ stated, row.test (.ofGroups stated) = row.testGroups (Filter.ofGroups stated).groups := by
  refine ⟨fun b h => ?_, fun error h => ?_, fun stated => ?_⟩
  · exact mapError_eq_ok_iff.2 (Filter.test_of_testGroups (mapError_eq_ok_iff.1 h))
  · cases hgroups : Filter.testGroups e.groups row.record with
    | error defect => exact ⟨defect, by rw [testGroups, hgroups]; rfl⟩
    | ok b =>
      rw [test, Filter.test_of_testGroups hgroups] at h
      contradiction
  · rw [test, testGroups, Filter.test_ofGroups_eq]

/-- A department, and a title or an instructor. -/
def titleOrInstructor : Filter :=
  .and (.or (.atom ⟨.title, .text .is false "a"⟩) (.atom ⟨.instructor, .text .is false "b"⟩))
    (.atom ⟨.department, .text .is false "c"⟩)

/-- A row without an instructor. -/
def titledRow (department : String) : Row :=
  ⟨0, .ofCells [(.title, .text "a"), (.department, .text department)]⟩

/-- Both ways to test agree on a row with a title alone. -/
theorem test_agrees_titledRow :
    (titledRow "c").testGroups titleOrInstructor.groups = .ok true ∧
      (titledRow "c").test titleOrInstructor = .ok true := by
  have hgroups : (titledRow "c").testGroups titleOrInstructor.groups = .ok true := by decide
  exact ⟨hgroups, (Row.test_agrees titleOrInstructor (titledRow "c")).1 true hgroups⟩

-- The filter can have an answer where its groups have none.
example :
    (titledRow "d").test titleOrInstructor = .ok false ∧
      (titledRow "d").testGroups titleOrInstructor.groups =
        .error (.defect 0 (.missing .instructor)) := by
  decide

end Execution

end CourseQuery
