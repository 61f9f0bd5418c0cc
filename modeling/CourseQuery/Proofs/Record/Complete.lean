import CourseQuery.Query

/-!
# Complete records

A record is complete when every field has a cell of its kind. This is what `Record.defect?` checks
field by field, and what every step of an answer relies on: a predicate, a sort and a projection can
only fail at a cell that is missing or of the wrong kind.
-/

set_option autoImplicit false

namespace CourseQuery

namespace Record

/-- Every field has a cell of its kind. -/
def Complete (r : Record) : Prop :=
  ∀ f : Field, ∃ c, r.cell f = some c ∧ c.kind = f.kind

/-- No cell is a NaN. -/
def NoNan (r : Record) : Prop :=
  ∀ f : Field, r.cell f ≠ some (.number .nan)

instance (r : Record) : Decidable r.NoNan :=
  decidable_of_iff (∀ f ∈ Field.all, r.cell f ≠ some (.number .nan))
    ⟨fun h f => h f (Field.mem_all f), fun h f _ => h f⟩

/-- Every number is finite. -/
def Finite (r : Record) : Prop :=
  ∀ f x, r.cell f = some (.number x) → x.isFinite = true

/-- An inserted cell is found at its field, and any other as before. -/
theorem cell_insert (r : Record) (f g : Field) (c : Cell) :
    (r.insert f c).cell g = if g = f then some c else r.cell g := rfl

/-- The check of one field passes exactly when the field has a cell of its kind. -/
theorem defectAt?_eq_none_iff {r : Record} {f : Field} :
    r.defectAt? f = none ↔ ∃ c, r.cell f = some c ∧ c.kind = f.kind := by
  unfold defectAt?
  cases h : r.cell f with
  | none => simp
  | some c =>
    by_cases hk : c.kind = f.kind
    · simp [hk]
    · simp [hk]

/-- The check of all fields passes exactly for complete records. -/
theorem defect?_eq_none_iff {r : Record} : r.defect? = none ↔ r.Complete := by
  unfold defect? Complete
  rw [List.findSome?_eq_none_iff]
  constructor
  · intro h f
    exact defectAt?_eq_none_iff.1 (h f (Field.mem_all f))
  · intro h f _
    exact defectAt?_eq_none_iff.2 (h f)

instance (r : Record) : Decidable r.Complete :=
  decidable_of_iff (r.defect? = none) defect?_eq_none_iff

/-- The cell of a numeric field of a complete record is a number. -/
theorem Complete.number {r : Record} (h : r.Complete) {f : Field} (hf : f.kind = .number) :
    ∃ x, r.cell f = some (.number x) := by
  obtain ⟨c, hc, hk⟩ := h f
  cases c with
  | number x => exact ⟨x, hc⟩
  | text s =>
    rw [hf] at hk
    contradiction

/-- The cell of a textual field of a complete record is a text. -/
theorem Complete.text {r : Record} (h : r.Complete) {f : Field} (hf : f.kind = .text) :
    ∃ s, r.cell f = some (.text s) := by
  obtain ⟨c, hc, hk⟩ := h f
  cases c with
  | text s => exact ⟨s, hc⟩
  | number x =>
    rw [hf] at hk
    contradiction

/-- The record with one number and one text throughout. -/
def uniform (x : Binary64) (s : String) : Record where
  cell f :=
    match f.kind with
    | .number => some (.number x)
    | .text => some (.text s)

end Record

end CourseQuery
