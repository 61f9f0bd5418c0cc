import CourseQuery.Filter.Expression

/-!
# Groups and expressions

A list of groups is folded into an expression from the left, first the predicates of each group and
then the groups. The fold keeps every predicate in its place.
-/

set_option autoImplicit false

namespace CourseQuery.Filter

/-- A conjunction folded from the left has the predicates of its parts in order. -/
theorem predicates_foldl_and (e : Filter) (es : List Filter) :
    (es.foldl and e).predicates = e.predicates ++ es.flatMap predicates := by
  induction es generalizing e with
  | nil => simp
  | cons e' es ih => simp [ih, predicates]

/-- An alternative folded from the left has the predicates of its parts in order. -/
theorem predicates_foldl_or (e : Filter) (es : List Filter) :
    (es.foldl or e).predicates = e.predicates ++ es.flatMap predicates := by
  induction es generalizing e with
  | nil => simp
  | cons e' es ih => simp [ih, predicates]

/-- The predicates of a group that is joined are those of the group. -/
theorem predicates_joinGroup (group : List Predicate) :
    ((join? and (group.map atom)).map predicates).getD [] = group := by
  cases group with
  | nil => rfl
  | cons p ps =>
    simp only [List.map_cons, join?, Option.map_some, Option.getD_some, predicates_foldl_and]
    simp [predicates, List.flatMap_map]

/-- The predicates of joined groups are those of the groups. -/
theorem flatMap_predicates_joinGroups (groups : List (List Predicate)) :
    (groups.filterMap fun group => join? and (group.map atom)).flatMap predicates =
      groups.flatten := by
  induction groups with
  | nil => rfl
  | cons group groups ih =>
    have hgroup := predicates_joinGroup group
    rw [List.filterMap_cons, List.flatten_cons, ← ih]
    cases h : join? and (group.map atom) with
    | none =>
      rw [h] at hgroup
      simp [← hgroup]
    | some e =>
      rw [h] at hgroup
      simp [← hgroup]

/-- The expression of a list of groups has the predicates of the groups in order. -/
theorem predicates_ofGroups (groups : List (List Predicate)) :
    (ofGroups groups).predicates = groups.flatten := by
  rw [← flatMap_predicates_joinGroups, ofGroups]
  cases groups.filterMap fun group => join? and (group.map atom) with
  | nil => rfl
  | cons e es => simp [join?, predicates_foldl_or]

/-! ## The groups of a list of groups -/

/-- A conjunction folded from the left appends its atoms to every group. -/
theorem groups_foldl_and (e : Filter) (ps : List Predicate) :
    ((ps.map atom).foldl and e).groups = e.groups.map fun group => group ++ ps := by
  induction ps generalizing e with
  | nil => simp
  | cons p ps ih =>
    rw [List.map_cons, List.foldl_cons, ih]
    simp [groups, ← List.map_eq_flatMap]

/-- An alternative folded from the left has the groups of its parts in order. -/
theorem groups_foldl_or (e : Filter) (es : List Filter) :
    (es.foldl or e).groups = e.groups ++ es.flatMap groups := by
  induction es generalizing e with
  | nil => simp
  | cons e' es ih => simp [ih, groups]

/-- A group that is joined is the one group of what it is joined to. -/
theorem groups_joinGroup {group : List Predicate} (h : group ≠ []) :
    ∃ e, join? and (group.map atom) = some e ∧ e.groups = [group] := by
  cases group with
  | nil => contradiction
  | cons p ps =>
    refine ⟨_, rfl, ?_⟩
    rw [groups_foldl_and]
    rfl

/-- Groups that are joined are collected again. -/
theorem flatMap_groups_joinGroups {stated : List (List Predicate)}
    (h : ∀ group ∈ stated, group ≠ []) :
    (stated.filterMap fun group => join? and (group.map atom)).flatMap groups = stated := by
  induction stated with
  | nil => rfl
  | cons group stated ih =>
    obtain ⟨e, he, hgroup⟩ := groups_joinGroup (h group List.mem_cons_self)
    have hrest := ih fun g hg => h g (List.mem_cons_of_mem _ hg)
    simp only [List.filterMap_cons, he, List.flatMap_cons, hgroup, hrest]
    rfl

/-- Groups of which none is empty are the groups of their expression. -/
theorem groups_ofGroups {stated : List (List Predicate)} (hstated : stated ≠ [])
    (h : ∀ group ∈ stated, group ≠ []) : (ofGroups stated).groups = stated := by
  have hall := flatMap_groups_joinGroups h
  unfold ofGroups
  cases hexprs : stated.filterMap fun group => join? and (group.map atom) with
  | nil =>
    rw [hexprs] at hall
    exact absurd hall.symm hstated
  | cons e es =>
    rw [hexprs] at hall
    rw [join?, Option.getD_some, groups_foldl_or]
    exact hall

end CourseQuery.Filter
