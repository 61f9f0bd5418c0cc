import CourseQuery.Proofs.Execution.Meaning
import CourseQuery.Proofs.Sentence.WellTyped

/-!
# A query over its own answer

An answer is what a query leaves alone: each of its records satisfies the filter, they stand in the
order of the sort field, and each has the shown fields and no others. `run_of_stable` says that the
query returns such records as they are, although they may lack the fields that are not shown. The
filter must only ask for fields that are shown, since the others are gone from the answer.
-/

set_option autoImplicit false

namespace CourseQuery

/-! ## The part of a record on some fields -/

namespace Record

variable {r : Record} {fields : List Field} {f : Field}

/-- A field that is kept keeps its cell. -/
theorem cell_restrict (hf : f ∈ fields) : (r.restrict fields).cell f = r.cell f := if_pos hf

/-- Restricting a record twice is restricting it once. -/
theorem restrict_restrict (r : Record) (fields : List Field) :
    (r.restrict fields).restrict fields = r.restrict fields := by
  apply congrArg Record.mk
  funext f
  by_cases hf : f ∈ fields
  · rw [if_pos hf, cell_restrict hf, if_pos hf]
  · rw [if_neg hf, if_neg hf]

/-- Restricting a record to every field changes nothing. -/
theorem restrict_of_forall_mem (r : Record) (hall : ∀ f, f ∈ fields) : r.restrict fields = r := by
  apply congrArg Record.mk
  funext f
  exact if_pos (hall f)

/-- A field that is kept keeps its defect. -/
theorem defectAt?_restrict (hf : f ∈ fields) : (r.restrict fields).defectAt? f = r.defectAt? f := by
  rw [defectAt?, defectAt?, cell_restrict hf]

end Record

/-- A predicate on a field that is kept has the same result. -/
theorem Predicate.test_restrict {p : Predicate} {r : Record} {fields : List Field}
    (hp : p.field ∈ fields) : p.test (r.restrict fields) = p.test r := by
  rw [test, test, Record.cell_restrict hp]

/-- A filter looks at no other fields than those of its predicates. -/
theorem Filter.test_restrict {e : Filter} {r : Record} {fields : List Field}
    (he : ∀ p ∈ e.predicates, p.field ∈ fields) : e.test (r.restrict fields) = e.test r := by
  induction e with
  | everything => rfl
  | atom p => exact Predicate.test_restrict (he p (List.mem_singleton_self p))
  | and a b iha ihb =>
    rw [test, test, iha fun p hp => he p (List.mem_append_left _ hp),
      ihb fun p hp => he p (List.mem_append_right _ hp)]
  | or a b iha ihb =>
    rw [test, test, iha fun p hp => he p (List.mem_append_left _ hp),
      ihb fun p hp => he p (List.mem_append_right _ hp)]

namespace Execution

/-! ## Records that a query leaves alone -/

/-- Cells of which one is at most the other are in order. -/
theorem inOrder_of_atMost {c d : Cell} (h : c.AtMost d) : inOrder (some c) (some d) = true := by
  cases c with
  | number x =>
    cases d with
    | number y =>
      have hle : x.atMost y = true := h
      cases hx : x.rank <;> cases hy : y.rank <;>
        simp_all [Binary64.atMost, inOrder, Binary64.less]
    | text t => exact h.elim
  | text s =>
    cases d with
    | number y => exact h.elim
    | text t => exact decide_eq_true (Text.Utf8.encode_le_encode_iff.1 h)

/-- Records that each step of a query leaves as they are. -/
structure Stable (query : Query) (records : List Record) : Prop where
  accepted : ∀ r ∈ records, query.filter.test r = .ok true
  sound : ∀ field ∈ query.sort, ∀ r ∈ records, r.defectAt? field = none
  sorted : ∀ field ∈ query.sort,
    records.Pairwise fun r s => inOrder (r.cell field) (s.cell field) = true
  present : ∀ r ∈ records, ∀ f ∈ query.display, (r.cell f).isSome
  cut : ∀ r ∈ records, r.restrict query.display = r

variable {query : Query} {records : List Record}

/-- A row holds one of the records. -/
theorem record_mem {row : Row} (h : row ∈ rowsFrom 0 records) : row.record ∈ records :=
  List.mem_of_getElem? (mem_rowsFrom_zero.1 h)

/-- The filter takes every record of a stable list. -/
theorem Stable.select (h : Stable query records) :
    select query.filter records = .ok (rowsFrom 0 records) := by
  have hkeeps : (rowsFrom 0 records).filter (keeps query.filter) = rowsFrom 0 records := by
    apply List.filter_eq_self.2
    intro row hrow
    rw [keeps, h.accepted _ (record_mem hrow)]
  rw [select_eq_filter fun r hr => ⟨true, h.accepted r hr⟩, hkeeps]

/-- Sorting leaves a stable list as it is. -/
theorem Stable.sortRows (h : Stable query records) {field : Field}
    (hfield : query.sort = some field) :
    sortRows field (rowsFrom 0 records) = .ok (rowsFrom 0 records) := by
  have hsound : firstDefect? field 0 (rowsFrom 0 records) = none := by
    apply firstDefect?_eq_none
    intro row hrow
    exact h.sound field hfield _ (record_mem hrow)
  have hsorted : (rowsFrom 0 records).Pairwise fun a b =>
      inOrder (a.record.cell field) (b.record.cell field) = true := by
    have hrecords := h.sorted field hfield
    rw [← map_record_rowsFrom 0 records] at hrecords
    exact List.pairwise_map.1 hrecords
  simp only [Execution.sortRows, hsound, List.mergeSort_of_pairwise hsorted]

/-- Selecting and sorting leave a stable list as it is. -/
theorem Stable.arrange (h : Stable query records) :
    arrange query records = .ok (rowsFrom 0 records) := by
  simp only [Execution.arrange, h.select, bind, Except.bind]
  split
  · rfl
  · rename_i field hfield
    exact h.sortRows hfield

/-- A query returns the records that its steps leave as they are. -/
theorem run_of_stable (h : Stable query records) :
    run query records = .ok ⟨records, records.length⟩ := by
  have hcut : projectFrom query.display 0 records =
      .ok (records.map fun r => r.restrict query.display) := projectFrom_of_present 0 h.present
  have hsame : (records.map fun r => r.restrict query.display) = records := by
    rw [List.map_congr_left h.cut, List.map_id']
  simp only [run, h.arrange, map_record_rowsFrom, hcut, hsame, bind, Except.bind]

/-! ## Answers -/

/-- A query leaves its answer alone if its filter asks only for fields that are shown. -/
theorem stable_of_complete (htyped : query.filter.WellTyped)
    (hshown : ∀ p ∈ query.filter.predicates, p.field ∈ query.display)
    (hcomplete : ∀ r ∈ records, r.Complete) (hnan : ∀ r ∈ records, r.NoNan) :
    ∃ out, run query records = .ok ⟨out, records.length⟩ ∧ Stable query out := by
  obtain ⟨rows, harrange, hmem, -, -, hsorted⟩ := arrange_of_complete htyped hcomplete hnan
  have hrow : ∀ row ∈ rows, row.record.Complete ∧ query.filter.Accepts row.record := by
    intro row hrow
    obtain ⟨hfrom, haccepts⟩ := (hmem row).1 hrow
    exact ⟨hcomplete _ (record_mem hfrom), haccepts⟩
  have hcut : projectFrom query.display 0 (rows.map Row.record) =
      .ok ((rows.map Row.record).map fun r => r.restrict query.display) := by
    apply projectFrom_of_complete
    intro r hr
    obtain ⟨row, hin, rfl⟩ := List.mem_map.1 hr
    exact (hrow row hin).1
  have hout : ∀ part ∈ (rows.map Row.record).map fun r => r.restrict query.display,
      ∃ row ∈ rows, row.record.restrict query.display = part := by
    intro part hpart
    simpa using hpart
  refine ⟨(rows.map Row.record).map fun r => r.restrict query.display, ?_, ?_⟩
  · simp only [run, harrange, hcut, bind, Except.bind]
  constructor
  case accepted =>
    intro part hpart
    obtain ⟨row, hin, rfl⟩ := hout part hpart
    obtain ⟨holds, htest, hiff⟩ := Filter.test_of_complete htyped (hrow row hin).1
    rw [Filter.test_restrict hshown, htest, hiff.2 (hrow row hin).2]
  case sound =>
    intro field hfield part hpart
    obtain ⟨row, hin, rfl⟩ := hout part hpart
    rw [Record.defectAt?_restrict (query.sort_mem field hfield)]
    exact Record.defectAt?_eq_none_iff.2 ((hrow row hin).1 field)
  case sorted =>
    intro field hfield
    apply List.pairwise_map.2
    apply List.pairwise_map.2
    apply (hsorted field hfield).imp
    intro a b hab
    obtain ⟨c, d, hc, hd, hle, -⟩ := hab
    have hdisplay := query.sort_mem field hfield
    rw [Record.cell_restrict hdisplay, Record.cell_restrict hdisplay, hc, hd]
    exact inOrder_of_atMost hle
  case present =>
    intro part hpart f hf
    obtain ⟨row, hin, rfl⟩ := hout part hpart
    obtain ⟨c, hc, -⟩ := (hrow row hin).1 f
    rw [Record.cell_restrict hf, hc]
    exact Option.isSome_some
  case cut =>
    intro part hpart
    obtain ⟨row, hin, rfl⟩ := hout part hpart
    exact row.record.restrict_restrict query.display

/-- A query that shows all fields and asks for no order shows the records that satisfy its filter,
as they are. -/
theorem run_of_all_shown (htyped : query.filter.WellTyped)
    (hcomplete : ∀ r ∈ records, r.Complete) (hall : ∀ f, f ∈ query.display)
    (hsort : query.sort = none) :
    run query records =
      .ok ⟨records.filter fun r => query.filter.Accepts r, records.length⟩ := by
  have htest : ∀ r ∈ records, ∃ holds, query.filter.test r = .ok holds := by
    intro r hr
    exact (Filter.test_of_complete htyped (hcomplete r hr)).imp fun _ h => h.1
  have hkept : ((rowsFrom 0 records).filter (keeps query.filter)).map Row.record =
      records.filter fun r => query.filter.Accepts r := by
    have hkeeps : (rowsFrom 0 records).filter (keeps query.filter) =
        (rowsFrom 0 records).filter ((fun r => decide (query.filter.Accepts r)) ∘ Row.record) := by
      apply List.filter_congr
      intro row hrow
      rw [Bool.eq_iff_iff, keeps_iff htyped (hcomplete _ (record_mem hrow))]
      exact decide_eq_true_iff.symm
    rw [hkeeps, ← List.filter_map, map_record_rowsFrom]
  have hsame : (records.filter fun r => query.filter.Accepts r).map
      (fun r => r.restrict query.display) = records.filter fun r => query.filter.Accepts r := by
    rw [List.map_congr_left fun r _ => r.restrict_of_forall_mem hall, List.map_id']
  have hcut : projectFrom query.display 0 (records.filter fun r => query.filter.Accepts r) =
      .ok (records.filter fun r => query.filter.Accepts r) := by
    rw [projectFrom_of_complete 0 fun r hr => hcomplete r (List.mem_filter.1 hr).1, hsame]
  simp only [run, arrange, select_eq_filter htest, hsort, hkept, hcut, bind, Except.bind]

/-- A query whose filter asks only for fields that it shows has an answer over complete records
without NaN, and over this answer it has the same answer again, in the same order. If it shows all
fields in no order of its own, the answer is the list of the records that satisfy the filter. -/
theorem run_again {source : String} (hread : Sentence.read source = .ok query)
    (hshown : ∀ p ∈ query.filter.predicates, p.field ∈ query.display)
    (hcomplete : ∀ r ∈ records, r.Complete) (hnan : ∀ r ∈ records, r.NoNan) :
    ∃ out, run query records = .ok ⟨out, records.length⟩ ∧
      run query out = .ok ⟨out, out.length⟩ ∧
      ((∀ f, f ∈ query.display) → query.sort = none →
        out = records.filter fun r => query.filter.Accepts r) := by
  have htyped := Sentence.read_wellTyped hread
  obtain ⟨out, hrun, hstable⟩ := stable_of_complete htyped hshown hcomplete hnan
  refine ⟨out, hrun, run_of_stable hstable, ?_⟩
  intro hall hsort
  have hsame := hrun.symm.trans (run_of_all_shown htyped hcomplete hall hsort)
  exact congrArg Answer.records (Except.ok.inj hsame)

/-- A sentence that sorts by a shown field and filters by another. -/
def sortedSentence : String :=
  "In courses dataset abc, find entries whose Average is greater than 80; " ++
    "show Instructor, and Average; sort in ascending order by Instructor."

/-- The query that `sortedSentence` asks. -/
def sortedQuery : Query where
  dataset := "abc"
  filter := .atom ⟨.average, .number .greater false (.ofInt 80)⟩
  display := [.average, .instructor]
  sort := some .instructor
  display_ne_nil := by decide
  display_ordered := by decide
  sort_mem := by decide

/-- Three records, of which two satisfy the filter of `sortedQuery`. -/
def plainRecords : List Record :=
  [.uniform (.ofInt 90) "b", .uniform (.ofInt 81) "a", .uniform (.ofInt 70) "c"]

/-- A sorted query over three records gives the same answer over its answer. -/
theorem run_again_plainRecords :
    Sentence.read sortedSentence = .ok sortedQuery ∧
      ∃ out, run sortedQuery plainRecords = .ok ⟨out, 3⟩ ∧
        run sortedQuery out = .ok ⟨out, out.length⟩ := by
  have hread : Sentence.read sortedSentence = .ok sortedQuery :=
    eq_ok_of_toOption (by decide +kernel)
  have hrecords : ∀ r ∈ plainRecords, r.Complete ∧ r.NoNan := by decide +kernel
  obtain ⟨out, hrun, hagain, -⟩ := run_again hread (by decide)
    (fun r hr => (hrecords r hr).1) fun r hr => (hrecords r hr).2
  exact ⟨hread, out, hrun, hagain⟩

end Execution

end CourseQuery
