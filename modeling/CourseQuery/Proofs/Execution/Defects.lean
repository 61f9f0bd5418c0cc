import CourseQuery.Proofs.Execution.Rows
import CourseQuery.Proofs.Steps
import Mathlib.Data.List.Perm.Subperm

/-!
# Which record stops a query

Each step of a query, the filter, the sort and the cut to the shown fields, takes rows in order and
stops at the first whose record has a defect that the step minds. The error names the place of that
row among the rows that the step was given. The filter is given all the records, so there the place
is the position of the record. The sort is given the rows that the filter left, and the cut is given
these in the order of the sort.
-/

set_option autoImplicit false

namespace CourseQuery

/-! ## Defects of records -/

/-- A record cannot be used where a field is wanted as a kind: there is no cell, or one of another
kind. -/
inductive Record.Lacks (r : Record) (f : Field) (wanted : CellKind) : Record.Defect → Prop
  | missing : r.cell f = none → Lacks r f wanted (.missing f)
  | wrongKind {c : Cell} : r.cell f = some c → c.kind ≠ wanted →
    Lacks r f wanted (.wrongKind f c.kind)

/-- A defect at a field says what the record lacks there. -/
theorem Record.lacks_of_defectAt? {r : Record} {f : Field} {d : Record.Defect}
    (h : r.defectAt? f = some d) : r.Lacks f f.kind d := by
  unfold defectAt? at h
  split at h
  · rename_i hcell
    rw [← Option.some.inj h]
    exact .missing hcell
  · rename_i c hcell
    split at h
    · contradiction
    · rename_i hkind
      rw [← Option.some.inj h]
      exact .wrongKind hcell hkind

/-- A predicate that cannot be tested wants a cell of the kind of its condition. -/
theorem Predicate.lacks_of_test {p : Predicate} {r : Record} {d : Record.Defect}
    (h : p.test r = .error d) : r.Lacks p.field p.condition.kind d := by
  obtain ⟨f, condition⟩ := p
  unfold test at h
  dsimp only at h
  cases hcell : r.cell f with
  | none =>
    rw [hcell] at h
    rw [← Except.error.inj h]
    exact .missing hcell
  | some c =>
    rw [hcell] at h
    cases condition with
    | number relation negated bound =>
      cases c with
      | number x => contradiction
      | text s =>
        rw [← Except.error.inj h]
        exact .wrongKind hcell nofun
    | text relation negated literal =>
      cases c with
      | number x =>
        rw [← Except.error.inj h]
        exact .wrongKind hcell nofun
      | text s => contradiction

/-- A filter that cannot be tested has a predicate that cannot be tested. -/
theorem Filter.exists_predicate_of_test {e : Filter} {r : Record} {d : Record.Defect}
    (h : e.test r = .error d) : ∃ p ∈ e.predicates, p.test r = .error d := by
  induction e with
  | everything => contradiction
  | atom p => exact ⟨p, List.mem_singleton_self p, h⟩
  | and a b iha ihb =>
    rw [test] at h
    split at h
    · obtain ⟨p, hp, htest⟩ := ihb h
      exact ⟨p, List.mem_append_right _ hp, htest⟩
    · obtain ⟨p, hp, htest⟩ := iha h
      exact ⟨p, List.mem_append_left _ hp, htest⟩
  | or a b iha ihb =>
    rw [test] at h
    split at h
    · obtain ⟨p, hp, htest⟩ := ihb h
      exact ⟨p, List.mem_append_right _ hp, htest⟩
    · obtain ⟨p, hp, htest⟩ := iha h
      exact ⟨p, List.mem_append_left _ hp, htest⟩

namespace Execution

/-! ## The first row with a defect -/

/-- The row at a place is the first of some rows whose record a check finds a defect in. -/
structure FirstDefect (check : Record → Option Record.Defect) (rows : List Row) (place : Nat)
    (row : Row) (defect : Record.Defect) : Prop where
  row_at : rows[place]? = some row
  found : check row.record = some defect
  first : ∀ other < place, ∀ r ∈ rows[other]?, check r.record = none

section

variable {check : Record → Option Record.Defect} {first : Row} {rows : List Row}
  {defect : Record.Defect} {P : Nat → Row → Record.Defect → Prop}

/-- No row has no first defect. -/
theorem not_exists_firstDefect_nil :
    ¬ ∃ place row defect, FirstDefect check [] place row defect ∧ P place row defect := by
  rintro ⟨place, row, defect, ⟨hrow, -, -⟩, -⟩
  contradiction

/-- A first row with a defect is the first one with a defect. -/
theorem exists_firstDefect_of_some (h : check first.record = some defect) :
    (∃ place row defect, FirstDefect check (first :: rows) place row defect ∧
      P place row defect) ↔ P 0 first defect := by
  constructor
  · rintro ⟨place, row, other, ⟨hrow, hfound, hfirst⟩, hP⟩
    cases place with
    | zero =>
      obtain rfl : first = row := Option.some.inj hrow
      rwa [Option.some.inj (h.symm.trans hfound)]
    | succ place =>
      rw [hfirst 0 (Nat.succ_pos _) first rfl] at h
      contradiction
  · intro hP
    exact ⟨0, first, defect, ⟨rfl, h, fun _ hother => absurd hother (Nat.not_lt_zero _)⟩, hP⟩

/-- Behind a row without a defect the first one with a defect comes one place later. -/
theorem exists_firstDefect_of_none (h : check first.record = none) :
    (∃ place row defect, FirstDefect check (first :: rows) place row defect ∧
        P place row defect) ↔
      ∃ place row defect, FirstDefect check rows place row defect ∧ P (place + 1) row defect := by
  constructor
  · rintro ⟨place, row, defect, ⟨hrow, hfound, hfirst⟩, hP⟩
    cases place with
    | zero =>
      obtain rfl : first = row := Option.some.inj hrow
      rw [h] at hfound
      contradiction
    | succ place =>
      refine ⟨place, row, defect, ⟨hrow, hfound, fun other hother r hr => ?_⟩, hP⟩
      exact hfirst (other + 1) (Nat.succ_lt_succ hother) r hr
  · rintro ⟨place, row, defect, ⟨hrow, hfound, hfirst⟩, hP⟩
    refine ⟨place + 1, row, defect, ⟨hrow, hfound, fun other hother r hr => ?_⟩, hP⟩
    cases other with
    | zero =>
      rw [← Option.some.inj hr]
      exact h
    | succ other => exact hfirst other (Nat.lt_of_succ_lt_succ hother) r hr

end

/-! ## The steps -/

/-- What keeps a filter from being tested on a record. -/
def testDefect? (e : Filter) (r : Record) : Option Record.Defect :=
  match e.test r with
  | .error defect => some defect
  | .ok _ => none

/-- The first shown field that a record has no cell for. -/
def notShown? (fields : List Field) (r : Record) : Option Record.Defect :=
  (fields.find? fun f => (r.cell f).isNone).map .missing

section

variable {rows : List Row} {error : Error}

/-- Selection fails at the first row that the filter cannot be tested on, and tells the number of
the row. -/
theorem selectRows_eq_error_iff {e : Filter} : selectRows e rows = .error error ↔
    ∃ place row defect, FirstDefect (testDefect? e) rows place row defect ∧
      error = .defect row.number defect := by
  induction rows with
  | nil => simp [selectRows, not_exists_firstDefect_nil]
  | cons first rows ih =>
    cases htest : e.test first.record with
    | error defect =>
      have hcheck : testDefect? e first.record = some defect := by simp [testDefect?, htest]
      have hfirst : first.test e = .error (.defect first.number defect) :=
        mapError_eq_error_iff.2 ⟨defect, htest, rfl⟩
      rw [exists_firstDefect_of_some hcheck, selectRows, hfirst]
      simp only [bind, Except.bind, Except.error.injEq, eq_comm]
    | ok holds =>
      have hcheck : testDefect? e first.record = none := by simp [testDefect?, htest]
      have hfirst : first.test e = .ok holds := mapError_eq_ok_iff.2 htest
      rw [exists_firstDefect_of_none hcheck, ← ih, selectRows, hfirst]
      cases selectRows e rows <;> simp [bind, Except.bind]

/-- A check of rows counted from a position stops at the first defect. -/
theorem firstDefect?_eq_some_iff (field : Field) (start : Nat) :
    firstDefect? field start rows = some error ↔
      ∃ place row defect, FirstDefect (fun r => r.defectAt? field) rows place row defect ∧
        error = .defect (start + place) defect := by
  induction rows generalizing start with
  | nil => simp [firstDefect?, not_exists_firstDefect_nil]
  | cons first rows ih =>
    cases hcheck : first.record.defectAt? field with
    | some defect =>
      rw [exists_firstDefect_of_some hcheck]
      simp only [firstDefect?, hcheck, Option.some.injEq, Nat.add_zero, eq_comm]
    | none =>
      rw [exists_firstDefect_of_none hcheck]
      simp only [firstDefect?, hcheck, ih, Nat.add_assoc, Nat.add_comm 1]

/-- The cut of records counted from a position fails at the first that misses a shown field. -/
theorem projectFrom_eq_error_iff (fields : List Field) (start : Nat) :
    projectFrom fields start (rows.map Row.record) = .error error ↔
      ∃ place row defect, FirstDefect (notShown? fields) rows place row defect ∧
        error = .defect (start + place) defect := by
  induction rows generalizing start with
  | nil => simp [projectFrom, not_exists_firstDefect_nil]
  | cons first rows ih =>
    cases hfind : fields.find? fun f => (first.record.cell f).isNone with
    | some f =>
      have hcheck : notShown? fields first.record = some (.missing f) := by
        rw [notShown?, hfind, Option.map_some]
      rw [exists_firstDefect_of_some hcheck]
      simp only [List.map_cons, projectFrom, project, hfind, bind, Except.bind,
        Except.error.injEq, Nat.add_zero, eq_comm]
    | none =>
      have hcheck : notShown? fields first.record = none := by
        rw [notShown?, hfind, Option.map_none]
      have hrest : projectFrom fields start ((first :: rows).map Row.record) = .error error ↔
          projectFrom fields (start + 1) (rows.map Row.record) = .error error := by
        simp only [List.map_cons, projectFrom, project, hfind]
        cases projectFrom fields (start + 1) (rows.map Row.record) <;> simp [bind, Except.bind]
      rw [exists_firstDefect_of_none hcheck, hrest, ih]
      simp only [Nat.add_assoc, Nat.add_comm 1]

end

/-! ## The steps of an answer -/

/-- The steps of an answer, in their order. -/
inductive Step where
  | filter
  | sort
  /-- The cut to the shown fields. -/
  | cut
deriving DecidableEq, Repr

namespace Step

variable {query : Query} {records : List Record} {rows : List Row} {step : Step}

/-- The rows that a step is given, unless a step before it fails. -/
def given (query : Query) (records : List Record) : Step → Except Error (List Row)
  | filter => .ok (rowsFrom 0 records)
  | sort => select query.filter records
  | cut => arrange query records

/-- The defect of a record that a step minds. -/
def check (query : Query) : Step → Record → Option Record.Defect
  | filter => testDefect? query.filter
  | sort => fun r => query.sort.bind r.defectAt?
  | cut => notShown? query.display

/-- A step uses the cells of a field as cells of a kind. The cut takes cells of any kind, so there
the kind says nothing. -/
inductive Uses (query : Query) : Step → Field → CellKind → Prop
  | filter {p : Predicate} : p ∈ query.filter.predicates →
    Uses query filter p.field p.condition.kind
  | sort {f : Field} : query.sort = some f → Uses query sort f f.kind
  | cut {f : Field} (kind : CellKind) : f ∈ query.display → Uses query cut f kind

/-- A query that sorts checks the field that it sorts by. -/
theorem check_sort {field : Field} (h : query.sort = some field) :
    check query sort = fun r => r.defectAt? field := by
  simp only [check, h, Option.bind_some]

/-- A defect that a step minds is one of a field that it uses. -/
theorem lacks_of_check {r : Record} {defect : Record.Defect}
    (h : step.check query r = some defect) :
    ∃ f kind, step.Uses query f kind ∧ r.Lacks f kind defect := by
  cases step with
  | filter =>
    cases htest : query.filter.test r with
    | ok holds => simp [check, testDefect?, htest] at h
    | error found =>
      obtain rfl : found = defect := by simpa [check, testDefect?, htest] using h
      obtain ⟨p, hp, hfound⟩ := Filter.exists_predicate_of_test htest
      exact ⟨p.field, p.condition.kind, .filter hp, Predicate.lacks_of_test hfound⟩
  | sort =>
    obtain ⟨f, hf, hdefect⟩ := Option.bind_eq_some_iff.1 h
    exact ⟨f, f.kind, .sort hf, Record.lacks_of_defectAt? hdefect⟩
  | cut =>
    obtain ⟨f, hfind, rfl⟩ := Option.map_eq_some_iff.1 h
    have hnone : r.cell f = none := by simpa using List.find?_some hfind
    exact ⟨f, f.kind, .cut f.kind (List.mem_of_find?_eq_some hfind), .missing hnone⟩

end Step

/-- Selected rows stay in their order. -/
theorem selectRows_sublist {e : Filter} {rows selected : List Row}
    (h : selectRows e rows = .ok selected) : selected.Sublist rows := by
  induction rows generalizing selected with
  | nil =>
    obtain rfl : [] = selected := Except.ok.inj h
    exact List.Sublist.refl []
  | cons row rows ih =>
    rw [selectRows] at h
    obtain ⟨holds, -, h⟩ := bind_eq_ok_iff.1 h
    obtain ⟨rest, hrest, h⟩ := bind_eq_ok_iff.1 h
    rw [← Except.ok.inj h]
    split
    · exact (ih hrest).cons_cons row
    · exact (ih hrest).cons row

/-- Selected records stay in their order. -/
theorem select_sublist {e : Filter} {records : List Record} {selected : List Row}
    (h : select e records = .ok selected) : selected.Sublist (rowsFrom 0 records) := by
  unfold select at h
  split at h
  · obtain rfl : rowsFrom 0 records = selected := Except.ok.inj h
    exact List.Sublist.refl _
  · exact selectRows_sublist h

/-- Sorting neither adds nor drops rows. -/
theorem sortRows_perm {field : Field} {rows sorted : List Row}
    (h : sortRows field rows = .ok sorted) : sorted.Perm rows := by
  unfold sortRows at h
  split at h
  · contradiction
  · rw [← Except.ok.inj h]
    exact List.mergeSort_perm _ _

/-- Every step is given rows of the records, none of them twice. -/
theorem Step.given_subperm {query : Query} {records : List Record} {rows : List Row} {step : Step}
    (h : step.given query records = .ok rows) : rows.Subperm (rowsFrom 0 records) := by
  cases step with
  | filter => exact Except.ok.inj h ▸ List.Subperm.refl _
  | sort => exact (select_sublist h).subperm
  | cut =>
    obtain ⟨selected, hselected, h⟩ := bind_eq_ok_iff.1 h
    have hsub := (select_sublist hselected).subperm
    split at h
    · rwa [← Except.ok.inj h]
    · exact (sortRows_perm h).subperm.trans hsub

/-- The rows of all records stand at their own positions. -/
theorem number_eq_of_rowsFrom_zero {records : List Record} {place : Nat} {row : Row}
    (h : (rowsFrom 0 records)[place]? = some row) : row.number = place := by
  rw [rowsFrom_eq_map, List.getElem?_map, List.getElem?_zipIdx] at h
  obtain ⟨⟨r, i⟩, hr, rfl⟩ := Option.map_eq_some_iff.1 h
  obtain ⟨s, -, hs⟩ := Option.map_eq_some_iff.1 hr
  rw [← (Prod.mk.inj hs).2, Nat.zero_add]

/-- Selecting fails at the first record on which a test fails, and numbers it in the input. -/
theorem select_eq_error_iff {e : Filter} {records : List Record} {error : Error} :
    select e records = .error error ↔
      ∃ place row defect, FirstDefect (testDefect? e) (rowsFrom 0 records) place row defect ∧
        error = .defect place defect := by
  have hrows : selectRows e (rowsFrom 0 records) = .error error ↔
      ∃ place row defect, FirstDefect (testDefect? e) (rowsFrom 0 records) place row defect ∧
        error = .defect place defect := by
    rw [selectRows_eq_error_iff]
    refine exists_congr fun place => exists_congr fun row => exists_congr fun defect =>
      and_congr_right fun hfirst => ?_
    rw [number_eq_of_rowsFrom_zero hfirst.row_at]
  by_cases heverything : e = .everything
  · subst heverything
    refine ⟨nofun, ?_⟩
    rintro ⟨place, row, defect, hfirst, -⟩
    cases hfirst.found
  · rw [select.eq_2 _ _ heverything, hrows]

/-- Sorting fails at the first row with a defect at the field, and numbers it among the rows. -/
theorem sortRows_eq_error_iff {field : Field} {rows : List Row} {error : Error} :
    sortRows field rows = .error error ↔
      ∃ place row defect, FirstDefect (fun r => r.defectAt? field) rows place row defect ∧
        error = .defect place defect := by
  have hfirst : firstDefect? field 0 rows = some error ↔
      ∃ place row defect, FirstDefect (fun r => r.defectAt? field) rows place row defect ∧
        error = .defect place defect := by
    simpa only [Nat.zero_add] using firstDefect?_eq_some_iff field 0
  rw [← hfirst, sortRows]
  cases firstDefect? field 0 rows <;> simp

/-- What a step says of the row that it stops at. -/
theorem Step.blame {query : Query} {records : List Record} (step : Step) {rows : List Row}
    {place : Nat} {row : Row} {defect : Record.Defect}
    (hgiven : step.given query records = .ok rows)
    (hfirst : FirstDefect (step.check query) rows place row defect) :
    place < records.length ∧
      records[row.number]? = some row.record ∧
      (∃ f kind, step.Uses query f kind ∧ row.record.Lacks f kind defect) ∧
      (rows = rowsFrom 0 records → row.number = place) := by
  have hsub := given_subperm hgiven
  have hlength : rows.length ≤ records.length := by
    rw [← map_record_rowsFrom 0 records, List.length_map]
    exact hsub.length_le
  have hmem := hsub.subset (List.mem_of_getElem? hfirst.row_at)
  refine ⟨?_, mem_rowsFrom_zero.1 hmem, lacks_of_check hfirst.found, fun hrows => ?_⟩
  · exact Nat.lt_of_lt_of_le (List.getElem?_eq_some_iff.1 hfirst.row_at).1 hlength
  · exact number_eq_of_rowsFrom_zero (hrows ▸ hfirst.row_at)

/-- An answer fails exactly where the first of its steps fails. -/
theorem run_eq_error_iff_steps {query : Query} {records : List Record} {error : Error} :
    run query records = .error error ↔
      select query.filter records = .error error ∨
      (∃ field rows, query.sort = some field ∧ select query.filter records = .ok rows ∧
        sortRows field rows = .error error) ∨
      ∃ rows, arrange query records = .ok rows ∧
        projectFrom query.display 0 (rows.map Row.record) = .error error := by
  have hcut : ∀ rows : List Row, (projectFrom query.display 0 (rows.map Row.record) >>= fun shown =>
      Except.ok (Answer.mk shown records.length)) = .error error ↔
      projectFrom query.display 0 (rows.map Row.record) = .error error := fun rows => by
    simp [bind_eq_error_iff]
  rw [run, bind_eq_error_iff, arrange, bind_eq_error_iff, or_assoc]
  simp only [hcut]
  cases query.sort with
  | none => simp
  | some field => simp

/-- Answering a query fails exactly at the first row, among the rows that some step is given, whose
record has a defect that the step minds, and the error tells the place of this row among these rows.
The row holds a record of the list, and this record lacks a cell of a kind for a field that the step
uses it for. The place is the position of the record whenever the step is given all the records, as
the filter always is. -/
theorem run_eq_error_iff (query : Query) (records : List Record) (error : Error) :
    run query records = .error error ↔
      ∃ (step : Step) (rows : List Row) (place : Nat) (row : Row) (defect : Record.Defect),
        step.given query records = .ok rows ∧
        FirstDefect (step.check query) rows place row defect ∧
        error = .defect place defect ∧
        place < records.length ∧
        records[row.number]? = some row.record ∧
        (∃ f kind, step.Uses query f kind ∧ row.record.Lacks f kind defect) ∧
        (rows = rowsFrom 0 records → row.number = place) := by
  have hcut : ∀ rows : List Row, projectFrom query.display 0 (rows.map Row.record) = .error error ↔
      ∃ place row defect, FirstDefect (notShown? query.display) rows place row defect ∧
        error = .defect place defect := fun rows => by
    simpa only [Nat.zero_add] using projectFrom_eq_error_iff query.display 0
  rw [run_eq_error_iff_steps]
  simp only [select_eq_error_iff, sortRows_eq_error_iff, hcut]
  constructor
  · rintro (⟨place, row, defect, hfirst, herror⟩ |
      ⟨field, rows, hsort, hgiven, place, row, defect, hfirst, herror⟩ |
      ⟨rows, hgiven, place, row, defect, hfirst, herror⟩)
    · exact ⟨.filter, _, place, row, defect, rfl, hfirst, herror,
        Step.blame .filter rfl hfirst⟩
    · rw [← Step.check_sort hsort] at hfirst
      exact ⟨.sort, rows, place, row, defect, hgiven, hfirst, herror,
        Step.blame .sort hgiven hfirst⟩
    · exact ⟨.cut, rows, place, row, defect, hgiven, hfirst, herror,
        Step.blame .cut hgiven hfirst⟩
  · rintro ⟨step, rows, place, row, defect, hgiven, hfirst, herror, -⟩
    cases step with
    | filter =>
      obtain rfl : rowsFrom 0 records = rows := Except.ok.inj hgiven
      exact .inl ⟨place, row, defect, hfirst, herror⟩
    | sort =>
      -- without a sort field this step would mind nothing
      obtain ⟨field, hsort, -⟩ := Option.bind_eq_some_iff.1 hfirst.found
      rw [Step.check_sort hsort] at hfirst
      exact .inr (.inl ⟨field, rows, hsort, hgiven, place, row, defect, hfirst, herror⟩)
    | cut => exact .inr (.inr ⟨rows, hgiven, place, row, defect, hfirst, herror⟩)

/-- The titles of a department. -/
def titlesOfDepartment : Query where
  dataset := "abc"
  filter := .atom ⟨.department, .text .is false "cpsc"⟩
  display := [.title]
  sort := none
  display_ne_nil := nofun
  display_ordered := rfl
  sort_mem := nofun

/-- A course of another department, and one of the department that has no title. -/
def secondUntitled : List Record :=
  [.ofCells [(.title, .text "intro"), (.department, .text "math")],
    .ofCells [(.department, .text "cpsc")]]

/-- The position in an error need not be that of a record with the defect. -/
theorem run_blames_another :
    ¬ ∀ (query : Query) (records : List Record) (place : Nat) (defect : Record.Defect),
      run query records = .error (.defect place defect) →
        ∃ r, records[place]? = some r ∧ ∃ f kind, r.Lacks f kind defect := by
  intro h
  have hrun : run titlesOfDepartment secondUntitled = .error (.defect 0 (.missing .title)) := rfl
  obtain ⟨r, hr, f, kind, hlacks⟩ := h _ _ _ _ hrun
  have htitle : r.cell .title = some (.text "intro") := by
    rw [← Option.some.inj hr]
    rfl
  cases hlacks with
  | missing hnone =>
    rw [htitle] at hnone
    contradiction

end Execution

end CourseQuery
