import CourseQuery.Execution
import CourseQuery.Proofs.Record.Stored

/-!
# Queries over records read back

A query cannot tell a record from the one that is read back for it: the filter and the sort only
look at the place of a number in the order, which both zeros share. So over records read back a
query has the answer that it has over the records, read back, or fails in the same way.
-/

set_option autoImplicit false

namespace CourseQuery

/-! ## Filters -/

namespace Binary64

variable {x x' y y' : Binary64} (hx : x.rank = x'.rank) (hy : y.rank = y'.rank)

include hx hy

/-- Equality of numbers does not tell a negative zero from zero. -/
theorem equal_congr : x.equal y = x'.equal y' := by
  rw [equal, equal, hx, hy]

/-- The strict order of numbers does not tell a negative zero from zero. -/
theorem less_congr : x.less y = x'.less y' := by
  rw [less, less, hx, hy]

/-- The order of numbers does not tell a negative zero from zero. -/
theorem atMost_congr : x.atMost y = x'.atMost y' := by
  rw [atMost, atMost, hx, hy]

end Binary64

/-- No relation tells a negative zero from zero. -/
theorem NumberRelation.holds_unsignedZero (relation : NumberRelation) (negated : Bool)
    (x bound : Binary64) :
    relation.holds negated x.unsignedZero bound = relation.holds negated x bound := by
  have hx := Binary64.rank_unsignedZero x
  have hequal : x.unsignedZero.equal bound = x.equal bound := Binary64.equal_congr hx rfl
  cases relation with
  | equal => cases negated <;> simp only [holds, hequal]
  | greater =>
    cases negated with
    | false => exact Binary64.less_congr rfl hx
    | true => exact Binary64.atMost_congr hx rfl
  | less =>
    cases negated with
    | false => exact Binary64.less_congr hx rfl
    | true => exact Binary64.atMost_congr rfl hx

/-- A predicate has the same result on a record that was stored. -/
theorem Predicate.test_stored (p : Predicate) (r : Record) : p.test r.stored = p.test r := by
  obtain ⟨field, condition⟩ := p
  unfold test
  cases hcell : r.cell field with
  | none => cases condition <;> simp [Record.stored, hcell]
  | some c =>
    cases condition with
    | number relation negated bound =>
      cases c with
      | number x => simp [Record.stored, hcell, Cell.stored, relation.holds_unsignedZero]
      | text s => simp [Record.stored, hcell, Cell.stored]
    | text relation negated literal =>
      cases c with
      | number x => simp [Record.stored, hcell, Cell.stored, Cell.kind]
      | text s => simp [Record.stored, hcell, Cell.stored]

/-- A filter has the same result on a record that was stored. -/
theorem Filter.test_stored (e : Filter) (r : Record) : e.test r.stored = e.test r := by
  induction e with
  | everything => rfl
  | atom p => exact p.test_stored r
  | and a b iha ihb => simp only [test, iha, ihb]
  | or a b iha ihb => simp only [test, iha, ihb]

namespace Execution

/-! ## Rows -/

/-- The row with the record that is read back. -/
def Row.stored (row : Row) : Row :=
  { row with record := row.record.stored }

/-- The rows of stored records are the stored rows. -/
theorem rowsFrom_stored (start : Nat) (records : List Record) :
    rowsFrom start (records.map Record.stored) = (rowsFrom start records).map Row.stored := by
  induction records generalizing start with
  | nil => rfl
  | cons r rs ih => simp [rowsFrom, ih, Row.stored]

/-- The same rows are selected after they were stored. -/
theorem selectRows_stored (e : Filter) (rows : List Row) :
    selectRows e (rows.map Row.stored) = (selectRows e rows).map (List.map Row.stored) := by
  induction rows with
  | nil => rfl
  | cons row rows ih =>
    have htest : row.stored.test e = row.test e :=
      congrArg (Except.mapError (Error.defect row.number)) (e.test_stored row.record)
    rw [List.map_cons, selectRows, selectRows, htest, ih]
    cases row.test e with
    | error defect => rfl
    | ok holds =>
      cases selectRows e rows with
      | error e => rfl
      | ok rest => cases holds <;> rfl

/-- The same records are selected after they were stored. -/
theorem select_stored (e : Filter) (records : List Record) :
    select e (records.map Record.stored) = (select e records).map (List.map Row.stored) := by
  by_cases hall : e = .everything
  · subst hall
    exact congrArg Except.ok (rowsFrom_stored 0 records)
  · rw [select.eq_2 _ _ hall, select.eq_2 _ _ hall, rowsFrom_stored, selectRows_stored]

/-- Storing brings no defect and mends none. -/
theorem firstDefect?_stored (field : Field) (position : Nat) (rows : List Row) :
    firstDefect? field position (rows.map Row.stored) = firstDefect? field position rows := by
  induction rows generalizing position with
  | nil => rfl
  | cons row rows ih =>
    have hdefect : row.stored.record.defectAt? field = row.record.defectAt? field :=
      row.record.defectAt?_stored field
    simp only [List.map_cons, firstDefect?, hdefect, ih]

/-- Storing changes no order of cells. -/
theorem inOrder_stored (c d : Option Cell) :
    inOrder (c.map Cell.stored) (d.map Cell.stored) = inOrder c d := by
  rcases c with _ | x | s
  · rfl
  · rcases d with _ | y | t
    · rfl
    · exact congrArg (!·)
        (Binary64.less_congr (Binary64.rank_unsignedZero y) (Binary64.rank_unsignedZero x))
    · rfl
  · rcases d with _ | y | t <;> rfl

/-- Rows are sorted in the same way after they were stored. -/
theorem sortRows_stored (field : Field) (rows : List Row) :
    sortRows field (rows.map Row.stored) = (sortRows field rows).map (List.map Row.stored) := by
  unfold sortRows
  rw [firstDefect?_stored]
  cases firstDefect? field 0 rows with
  | some error => rfl
  | none =>
    refine congrArg Except.ok (List.map_mergeSort fun a _ b _ => ?_).symm
    exact (inOrder_stored _ _).symm

/-! ## The answer -/

/-- Records are selected and sorted in the same way after they were stored. -/
theorem arrange_stored (query : Query) (records : List Record) :
    arrange query (records.map Record.stored) =
      (arrange query records).map (List.map Row.stored) := by
  unfold arrange
  rw [select_stored]
  cases select query.filter records with
  | error e => rfl
  | ok rows =>
    cases hsort : query.sort with
    | none => rfl
    | some field => exact sortRows_stored field rows

/-- A record is projected in the same way after it was stored. -/
theorem project_stored (fields : List Field) (position : Nat) (r : Record) :
    project fields position r.stored = (project fields position r).map Record.stored := by
  have hnone : (fun f => (r.stored.cell f).isNone) = fun f => (r.cell f).isNone := by
    funext f
    exact Option.isNone_map
  have hrestrict : r.stored.restrict fields = (r.restrict fields).stored := by
    unfold Record.restrict Record.stored
    congr
    funext f
    exact (apply_ite (Option.map Cell.stored) (f ∈ fields) (r.cell f) none).symm
  unfold project
  rw [hnone, hrestrict]
  cases fields.find? fun f => (r.cell f).isNone <;> rfl

/-- Records are projected in the same way after they were stored. -/
theorem projectFrom_stored (fields : List Field) (position : Nat) (records : List Record) :
    projectFrom fields position (records.map Record.stored) =
      (projectFrom fields position records).map (List.map Record.stored) := by
  induction records generalizing position with
  | nil => rfl
  | cons r rs ih =>
    simp only [List.map_cons, projectFrom, project_stored, ih]
    cases project fields position r with
    | error e => rfl
    | ok part => cases projectFrom fields (position + 1) rs <;> rfl

/-- The answer with the records that are read back. -/
def Answer.stored (answer : Answer) : Answer :=
  { answer with records := answer.records.map Record.stored }

/-- Over records read back a query has the answer that it has over the records, read back. -/
theorem run_stored (query : Query) (records : List Record) :
    run query (records.map Record.stored) = (run query records).map Answer.stored := by
  unfold run
  rw [arrange_stored]
  cases arrange query records with
  | error e => rfl
  | ok rows =>
    have hrecords : (rows.map Row.stored).map Row.record =
        (rows.map Row.record).map Record.stored := by
      simp [Row.stored, Function.comp_def]
    simp only [Except.map, bind, Except.bind, hrecords, projectFrom_stored]
    cases projectFrom query.display 0 (rows.map Row.record) with
    | error e => rfl
    | ok shown => simp [Answer.stored]

end Execution

end CourseQuery
