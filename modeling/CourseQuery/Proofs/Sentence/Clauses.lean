import CourseQuery.Proofs.Steps
import CourseQuery.Sentence.Reader

/-!
# The clauses of a sentence

A sentence is read when its clauses are read one after another and nothing is left.
`Sentence.read_eq_ok_iff` takes a reading apart into these steps and puts them together again.
-/

set_option autoImplicit false

namespace CourseQuery.Sentence

/-- Reads the order clause if there is one. -/
def sortClause (order : Bool) (ts : List Token) : Except Rejection (Option Field × List Token) :=
  if order then (orderClause ts).map fun (field, rest) => (some field, rest) else .ok (none, ts)

/-- Nothing may be left of a sentence. -/
theorem terminator_eq_ok_iff {ts : List Token} : terminator ts = .ok () ↔ ts = [] := by
  cases ts with
  | nil => simp [terminator]
  | cons t ts => simp [terminator]

/-- The reader takes the clauses in turn; the order clause stands only where the display clause says
so. -/
theorem read_eq (source : String) :
    read source = (do
      let (dataset, ts) ← datasetClause (tokenize source)
      let (filter, ts) ← filterClause source ts
      let ((display, order), ts) ← displayClause ts
      let (sort, ts) ← sortClause order ts
      terminator ts
      (Query.ofParts dataset filter display sort).mapError Rejection.ofQueryFault) := by
  unfold read sortClause
  dsimp only
  cases datasetClause (tokenize source) with
  | error r => rfl
  | ok dataset =>
    obtain ⟨dataset, ts⟩ := dataset
    simp only [bind, Except.bind]
    cases filterClause source ts with
    | error r => rfl
    | ok filter =>
      obtain ⟨filter, ts⟩ := filter
      simp only
      cases displayClause ts with
      | error r => rfl
      | ok display =>
        obtain ⟨⟨display, order⟩, ts⟩ := display
        cases order with
        | false => rfl
        | true =>
          simp only [if_true]
          cases orderClause ts with
          | error r => rfl
          | ok field => rfl

/-- A sentence is read exactly when its clauses are read one after another, nothing is left and the
parts make a query. -/
theorem read_eq_ok_iff {source : String} {q : Query} :
    read source = .ok q ↔
      ∃ dataset ts₁ filter ts₂ display order ts₃ sort,
        datasetClause (tokenize source) = .ok (dataset, ts₁) ∧
        filterClause source ts₁ = .ok (filter, ts₂) ∧
        displayClause ts₂ = .ok ((display, order), ts₃) ∧
        sortClause order ts₃ = .ok (sort, []) ∧
        Query.ofParts dataset filter display sort = .ok q := by
  rw [read_eq]
  constructor
  · intro h
    obtain ⟨⟨dataset, ts₁⟩, hdataset, h⟩ := bind_eq_ok_iff.1 h
    obtain ⟨⟨filter, ts₂⟩, hfilter, h⟩ := bind_eq_ok_iff.1 h
    obtain ⟨⟨⟨display, order⟩, ts₃⟩, hdisplay, h⟩ := bind_eq_ok_iff.1 h
    obtain ⟨⟨sort, ts₄⟩, hsort, h⟩ := bind_eq_ok_iff.1 h
    obtain ⟨_, hend, h⟩ := bind_eq_ok_iff.1 h
    rw [terminator_eq_ok_iff.1 hend] at hsort
    exact ⟨dataset, ts₁, filter, ts₂, display, order, ts₃, sort, hdataset, hfilter, hdisplay,
      hsort, mapError_eq_ok_iff.1 h⟩
  · rintro ⟨dataset, ts₁, filter, ts₂, display, order, ts₃, sort, hdataset, hfilter, hdisplay,
      hsort, hparts⟩
    refine bind_eq_ok_iff.2 ⟨(dataset, ts₁), hdataset, ?_⟩
    refine bind_eq_ok_iff.2 ⟨(filter, ts₂), hfilter, ?_⟩
    refine bind_eq_ok_iff.2 ⟨((display, order), ts₃), hdisplay, ?_⟩
    refine bind_eq_ok_iff.2 ⟨(sort, []), hsort, ?_⟩
    refine bind_eq_ok_iff.2 ⟨(), terminator_eq_ok_iff.2 rfl, ?_⟩
    exact mapError_eq_ok_iff.2 hparts

end CourseQuery.Sentence
