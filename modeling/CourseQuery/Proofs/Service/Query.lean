import CourseQuery.Dataset.Memory
import CourseQuery.Proofs.Execution.Meaning
import CourseQuery.Proofs.Sentence.WellTyped
import CourseQuery.Service.Operation

/-!
# What a sentence is answered

A sentence that is read as a query over a dataset is answered with the records that the query means:
reading makes the query well typed, so over complete records without NaN no step can fail.
-/

set_option autoImplicit false

namespace CourseQuery.Service

open Execution (Answers run_of_complete)

variable {σ : Type} [Store σ]

/-- Every sentence that is read as a query over complete records without NaN is answered, and the
answer is the one that the query means. -/
theorem perform_answers (store : σ) (sentence : String) (query : Query) (records : List Record)
    (hread : Sentence.read sentence = .ok query)
    (hload : Store.load store query.dataset = .ok records)
    (hcomplete : ∀ r ∈ records, r.defect? = none) (hnan : ∀ r ∈ records, r.NoNan) :
    ∃ shown chosen, (perform store sentence).1 = .ok shown ∧
      Answers query records chosen shown := by
  obtain ⟨shown, chosen, hrun, hanswers⟩ :=
    run_of_complete (Sentence.read_wellTyped hread)
      (fun r hr => Record.defect?_eq_none_iff.1 (hcomplete r hr)) hnan
  refine ⟨shown, chosen, ?_, hanswers⟩
  simp only [perform, hread, answer, hload, hrun]

/-! ## A query over four courses, two of them with the same average -/

/-- A complete record with a title and an average. -/
def course (title : String) (average : Nat) : Record :=
  .ofCells [(.department, .text "cpsc"), (.id, .text "110"), (.average, .number (.ofInt average)),
    (.instructor, .text "smith"), (.title, .text title), (.pass, .number (.ofInt 10)),
    (.fail, .number (.ofInt 1)), (.audit, .number (.ofInt 0)), (.uuid, .text "1001")]

/-- A dataset in which the first and the third record tie. -/
def fourCourses : List Record :=
  [course "a" 92, course "b" 85, course "c" 92, course "d" 95]

/-- A sentence that selects, sorts and shows two fields. -/
def belowSentence : String :=
  "In courses dataset abc, find entries whose Average is less than 95 and Title is not \"x y\"; " ++
    "show Title, and Average; sort in ascending order by Average."

/-- The query that `belowSentence` asks. -/
def belowQuery : Query where
  dataset := "abc"
  filter := .and (.atom ⟨.average, .number .less false (.ofInt 95)⟩)
    (.atom ⟨.title, .text .is true "x y"⟩)
  display := [.average, .title]
  sort := some .average
  display_ne_nil := by decide
  display_ordered := by decide
  sort_mem := by decide

/-- A query for the courses below an average is answered over four courses. -/
theorem belowSentence_answers :
    Sentence.read belowSentence = .ok belowQuery ∧
      ∃ shown chosen, (perform (MemoryStore.empty.put "abc" ⟨.courses, fourCourses⟩)
        belowSentence).1 = .ok shown ∧ Answers belowQuery fourCourses chosen shown := by
  have hread : Sentence.read belowSentence = .ok belowQuery := by
    have h : (Sentence.read belowSentence).toOption = some belowQuery := by decide +kernel
    revert h
    cases Sentence.read belowSentence with
    | error r => exact fun h => nomatch h
    | ok q => exact fun h => congrArg Except.ok (Option.some.inj h)
  refine ⟨hread, perform_answers _ _ _ _ hread rfl (by decide +kernel) ?_⟩
  have h : ∀ r ∈ fourCourses, ∀ f ∈ Field.all, r.cell f ≠ some (.number .nan) := by
    decide +kernel
  exact fun r hr f => h r hr f (Field.mem_all f)

end CourseQuery.Service
