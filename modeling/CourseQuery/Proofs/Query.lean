import CourseQuery.Query

/-!
# Building a query from its parts

`Query.ofParts` gives the query with the parts it is given, the shown fields put in order, and
refuses only what no query can hold.
-/

set_option autoImplicit false

namespace CourseQuery.Query

/-- The parts make exactly the query that has them, the shown fields as a set. -/
theorem ofParts_eq_ok_iff {dataset : String} {filter : Filter} {display : List Field}
    {sort : Option Field} {q : Query} :
    ofParts dataset filter display sort = .ok q ↔
      q.dataset = dataset ∧ q.filter = filter ∧ q.display = Field.ordered display ∧
        q.sort = sort := by
  constructor
  · intro h
    unfold ofParts at h
    split at h
    · contradiction
    · split at h
      · rw [← Except.ok.inj h]
        exact ⟨rfl, rfl, rfl, rfl⟩
      · split at h
        · rw [← Except.ok.inj h]
          exact ⟨rfl, rfl, rfl, rfl⟩
        · contradiction
  · obtain ⟨d, f, ds, s, hne, hordered, hsort⟩ := q
    rintro ⟨rfl, rfl, hds, rfl⟩
    dsimp only at hds
    subst hds
    unfold ofParts
    rw [dif_neg hne]
    cases s with
    | none => rfl
    | some field => exact dif_pos (hsort field rfl)

/-- Fields that are put in order do not vanish. -/
theorem ordered_ne_nil {display : List Field} (h : display ≠ []) : Field.ordered display ≠ [] := by
  obtain ⟨f, hf⟩ := List.exists_mem_of_ne_nil display h
  exact List.ne_nil_of_mem (Field.mem_ordered.2 hf)

/-- Parts with a field to show and no sort field outside these make a query. -/
theorem exists_ofParts (dataset : String) (filter : Filter) {display : List Field}
    {sort : Option Field} (hdisplay : display ≠ []) (hsort : ∀ f ∈ sort, f ∈ display) :
    ∃ q, ofParts dataset filter display sort = .ok q := by
  unfold ofParts
  rw [dif_neg (ordered_ne_nil hdisplay)]
  cases sort with
  | none => exact ⟨_, rfl⟩
  | some f => exact ⟨_, dif_pos (Field.mem_ordered.2 (hsort f rfl))⟩

/-- Only a sort field that is not shown can be wrong with parts that show something. -/
theorem eq_of_ofParts_eq_error {dataset : String} {filter : Filter} {display : List Field}
    {sort : Option Field} {fault : Fault} (hdisplay : display ≠ [])
    (h : ofParts dataset filter display sort = .error fault) :
    ∃ f, sort = some f ∧ f ∉ display ∧ fault = .sortNotShown f := by
  unfold ofParts at h
  rw [dif_neg (ordered_ne_nil hdisplay)] at h
  cases sort with
  | none => contradiction
  | some f =>
    refine ⟨f, rfl, ?_⟩
    dsimp only at h
    split at h
    · contradiction
    · rename_i hf
      rw [Field.mem_ordered] at hf
      exact ⟨hf, (Except.error.inj h).symm⟩

/-- A field is shown exactly when it is among the given ones. -/
theorem mem_display_iff {display : List Field} {q : Query}
    (h : q.display = Field.ordered display) {f : Field} : f ∈ q.display ↔ f ∈ display := by
  rw [h, Field.mem_ordered]

end CourseQuery.Query
