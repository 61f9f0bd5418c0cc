import CourseQuery.Proofs.Execution.Rows
import CourseQuery.Proofs.Text.Utf8

/-!
# What the answer to a query is

An answer is described by the positions of the records it shows. The positions are those of the
records that satisfy the filter, in increasing order or, with a sort field, in the order of the
cells of that field, equal cells in the order of their positions; and each record that is shown has
the shown fields of the record at its position and no others. `run_of_complete` says that a well
typed query over complete records without NaN always has an answer, and that it is this one.
-/

set_option autoImplicit false

namespace CourseQuery

/-- The order of two cells of one kind: numbers by value, texts by their bytes. -/
def Cell.AtMost : Cell → Cell → Prop
  | .number x, .number y => x.atMost y = true
  | .text s, .text t => Text.Utf8.encode s ≤ Text.Utf8.encode t
  | _, _ => False

namespace Execution

/-- The record at position `i` stands before the one at position `j` when sorted by a field: its
cell is smaller, or the cells are equal and its position is smaller. -/
def Precedes (records : List Record) (field : Field) (i j : Nat) : Prop :=
  ∃ r s c d, records[i]? = some r ∧ records[j]? = some s ∧ r.cell field = some c ∧
    s.cell field = some d ∧ c.AtMost d ∧ (d.AtMost c → i < j)

/-- A record shows exactly the given fields of another one. -/
def Shows (fields : List Field) (r shown : Record) : Prop :=
  ∀ f, (f ∈ fields ↔ (shown.cell f).isSome) ∧ (f ∈ fields → shown.cell f = r.cell f)

/-- The records `shown` answer a query over `records`, and `chosen` are the positions of the records
they come from. -/
structure Answers (query : Query) (records : List Record) (chosen : List Nat)
    (shown : List Record) : Prop where
  nodup : chosen.Nodup
  mem_iff : ∀ i, i ∈ chosen ↔ ∃ r, records[i]? = some r ∧ query.filter.Accepts r
  increasing : query.sort = none → chosen.Pairwise (· < ·)
  sorted : ∀ field, query.sort = some field → chosen.Pairwise (Precedes records field)
  length_eq : shown.length = chosen.length
  shows : ∀ (k i : Nat) (part : Record), chosen[k]? = some i → shown[k]? = some part →
    ∃ r, records[i]? = some r ∧ Shows query.display r part

/-! ## Sorting by a field -/

/-- Where each record can be sorted by, the sort of rows has no defect to report. -/
theorem firstDefect?_eq_none {field : Field} {position : Nat} {rows : List Row}
    (h : ∀ row ∈ rows, row.record.defectAt? field = none) :
    firstDefect? field position rows = none := by
  induction rows generalizing position with
  | nil => rfl
  | cons row rows ih =>
    simp only [firstDefect?, h row List.mem_cons_self]
    exact ih fun row' hrow' => h row' (List.mem_cons_of_mem _ hrow')

/-- The value by which rows are sorted when the field is numeric. -/
def numberKey (field : Field) (row : Row) : Int :=
  match row.record.cell field with
  | some (.number x) => x.rank.getD 0
  | _ => 0

/-- The value by which rows are sorted when the field is textual. -/
def textKey (field : Field) (row : Row) : String :=
  match row.record.cell field with
  | some (.text s) => s
  | _ => ""

/-- A number that is no NaN has a place in the order. -/
theorem rank_of_ne_nan {x : Binary64} (h : x ≠ .nan) : ∃ k, x.rank = some k := by
  cases x with
  | nan => contradiction
  | signed negative m => exact ⟨_, rfl⟩

/-- The order in which rows stand after sorting. -/
def RowPrecedes (field : Field) (a b : Row) : Prop :=
  ∃ c d, a.record.cell field = some c ∧ b.record.cell field = some d ∧ c.AtMost d ∧
    (d.AtMost c → a.number < b.number)

/-- Sorting complete rows by a field always succeeds and puts them in the order of their cells,
equal cells in the order of their positions. -/
theorem sortRows_of_complete (field : Field) {rows : List Row}
    (hcomplete : ∀ row ∈ rows, row.record.Complete) (hnan : ∀ row ∈ rows, row.record.NoNan)
    (hrows : rows.Pairwise fun a b => a.number < b.number) :
    ∃ out, sortRows field rows = .ok out ∧ out.Perm rows ∧ out.Pairwise (RowPrecedes field) := by
  have hsound : ∀ row ∈ rows, row.record.defectAt? field = none := fun row hrow =>
    Record.defectAt?_eq_none_iff.2 (hcomplete row hrow field)
  refine ⟨_, by rw [sortRows, firstDefect?_eq_none hsound], List.mergeSort_perm _ _, ?_⟩
  have hmem : ∀ {le : Row → Row → Bool} {row : Row}, row ∈ rows.mergeSort le → row ∈ rows :=
    fun h => (List.mergeSort_perm _ _).mem_iff.1 h
  cases hkind : field.kind with
  | number =>
    have hcell : ∀ row ∈ rows, ∃ x k, row.record.cell field = some (.number x) ∧
        x.rank = some k ∧ numberKey field row = k := by
      intro row hrow
      obtain ⟨x, hx⟩ := (hcomplete row hrow).number hkind
      obtain ⟨k, hk⟩ := rank_of_ne_nan fun h => hnan row hrow field (h ▸ hx)
      exact ⟨x, k, hx, hk, by simp [numberKey, hx, hk]⟩
    refine (mergeSort_pairwise (numberKey field) (fun a ha b hb => ?_) hrows).imp_of_mem
      fun {a b} ha hb hab => ?_
    · obtain ⟨x, j, hx, hj, hja⟩ := hcell a ha
      obtain ⟨y, k, hy, hk, hkb⟩ := hcell b hb
      simp only [inOrder, hx, hy, Binary64.less, hj, hk, hja, hkb]
      rw [← decide_not, decide_eq_decide]
      omega
    · obtain ⟨x, j, hx, hj, hja⟩ := hcell a (hmem ha)
      obtain ⟨y, k, hy, hk, hkb⟩ := hcell b (hmem hb)
      rw [hja, hkb] at hab
      exact ⟨_, _, hx, hy, by simpa [Cell.AtMost, Binary64.atMost, hj, hk] using hab⟩
  | text =>
    have hcell : ∀ row ∈ rows, ∃ s, row.record.cell field = some (.text s) ∧
        textKey field row = s := by
      intro row hrow
      obtain ⟨s, hs⟩ := (hcomplete row hrow).text hkind
      exact ⟨s, hs, by simp [textKey, hs]⟩
    refine (mergeSort_pairwise (textKey field) (fun a ha b hb => ?_) hrows).imp_of_mem
      fun {a b} ha hb hab => ?_
    · obtain ⟨s, hs, hsa⟩ := hcell a ha
      obtain ⟨t, ht, htb⟩ := hcell b hb
      simp [inOrder, hs, ht, hsa, htb]
    · obtain ⟨s, hs, hsa⟩ := hcell a (hmem ha)
      obtain ⟨t, ht, htb⟩ := hcell b (hmem hb)
      rw [hsa, htb] at hab
      refine ⟨_, _, hs, ht, ?_⟩
      simpa only [Cell.AtMost, Text.Utf8.encode_le_encode_iff] using hab

/-! ## Projection -/

/-- A record with every field is restricted to the fields. -/
theorem project_of_present {fields : List Field} {position : Nat} {r : Record}
    (h : ∀ f ∈ fields, (r.cell f).isSome) :
    project fields position r = .ok (r.restrict fields) := by
  have hnone : fields.find? (fun f => (r.cell f).isNone) = none := by
    rw [List.find?_eq_none]
    intro f hf
    simp [Option.isSome_iff_ne_none.1 (h f hf)]
  rw [project, hnone]

/-- Records with every field are restricted to the fields. -/
theorem projectFrom_of_present {fields : List Field} (position : Nat) {rs : List Record}
    (h : ∀ r ∈ rs, ∀ f ∈ fields, (r.cell f).isSome) :
    projectFrom fields position rs = .ok (rs.map fun r => r.restrict fields) := by
  induction rs generalizing position with
  | nil => rfl
  | cons r rs ih =>
    have hrest := ih (position + 1) fun s hs => h s (List.mem_cons_of_mem _ hs)
    simp only [projectFrom, project_of_present (h r List.mem_cons_self), hrest, List.map_cons]
    rfl

/-- Complete records are restricted to the fields. -/
theorem projectFrom_of_complete {fields : List Field} (position : Nat) {rs : List Record}
    (h : ∀ r ∈ rs, r.Complete) :
    projectFrom fields position rs = .ok (rs.map fun r => r.restrict fields) := by
  apply projectFrom_of_present
  intro r hr f _
  obtain ⟨c, hc, -⟩ := h r hr f
  exact hc ▸ rfl

/-- The restriction of a complete record shows its cells of the fields. -/
theorem shows_restrict {fields : List Field} {r : Record} (h : r.Complete) :
    Shows fields r (r.restrict fields) := by
  intro f
  obtain ⟨c, hc, -⟩ := h f
  by_cases hf : f ∈ fields
  · simp [Record.restrict, hf, hc]
  · simp [Record.restrict, hf]

/-! ## The answer -/

/-- The rows of an answer are the selected ones, in the order that the query asks for. -/
theorem arrange_of_complete {query : Query} {records : List Record}
    (htyped : query.filter.WellTyped) (hcomplete : ∀ r ∈ records, r.Complete)
    (hnan : ∀ r ∈ records, r.NoNan) :
    ∃ rows, arrange query records = .ok rows ∧
      (∀ row, row ∈ rows ↔ row ∈ rowsFrom 0 records ∧ query.filter.Accepts row.record) ∧
      (rows.map Row.number).Nodup ∧
      (query.sort = none → rows.Pairwise fun a b => a.number < b.number) ∧
      ∀ field, query.sort = some field → rows.Pairwise (RowPrecedes field) := by
  obtain ⟨selected, hselect, hsub, hmem⟩ := select_of_complete htyped hcomplete
  have hpairwise := (rowsFrom_pairwise 0 records).sublist hsub
  have hnodup : (selected.map Row.number).Nodup :=
    List.pairwise_map.2 (hpairwise.imp Nat.ne_of_lt)
  have hrecord : ∀ row ∈ selected, row.record ∈ records := fun row hrow =>
    List.mem_of_getElem? (mem_rowsFrom_zero.1 ((hmem row).1 hrow).1)
  cases hsort : query.sort with
  | none =>
    refine ⟨selected, ?_, hmem, hnodup, fun _ => hpairwise, by simp⟩
    simp only [arrange, hselect, hsort]
    rfl
  | some field =>
    obtain ⟨out, hout, hperm, hordered⟩ := sortRows_of_complete field
      (fun row hrow => hcomplete _ (hrecord row hrow))
      (fun row hrow => hnan _ (hrecord row hrow)) hpairwise
    refine ⟨out, ?_, fun row => (hperm.mem_iff).trans (hmem row),
      (hperm.map Row.number).nodup_iff.2 hnodup, by simp, fun f hf => ?_⟩
    · simp only [arrange, hselect, hsort, bind, Except.bind]
      exact hout
    · rw [← Option.some.inj hf]
      exact hordered

/-- A query without a condition and an order shows every record, in the order of the records. -/
theorem run_everything {query : Query} {records : List Record}
    (hfilter : query.filter = .everything) (hsort : query.sort = none)
    (hcomplete : ∀ r ∈ records, r.Complete) :
    run query records =
      .ok ⟨records.map fun r => r.restrict query.display, records.length⟩ := by
  have harrange : arrange query records = .ok (rowsFrom 0 records) := by
    simp only [arrange, hfilter, hsort]
    rfl
  simp only [run, harrange, map_record_rowsFrom, projectFrom_of_complete 0 hcomplete, bind,
    Except.bind]

/-- A well typed query over complete records without NaN has an answer. -/
theorem run_of_complete {query : Query} {records : List Record}
    (htyped : query.filter.WellTyped) (hcomplete : ∀ r ∈ records, r.Complete)
    (hnan : ∀ r ∈ records, r.NoNan) :
    ∃ shown chosen, run query records = .ok ⟨shown, records.length⟩ ∧
      Answers query records chosen shown := by
  obtain ⟨rows, harrange, hmem, hnodup, hnone, hsome⟩ :=
    arrange_of_complete htyped hcomplete hnan
  have hat : ∀ row ∈ rows, records[row.number]? = some row.record := fun row hrow =>
    mem_rowsFrom_zero.1 ((hmem row).1 hrow).1
  have hrows : ∀ r ∈ rows.map Row.record, r.Complete := by
    intro r hr
    obtain ⟨row, hrow, rfl⟩ := List.mem_map.1 hr
    exact hcomplete _ (List.mem_of_getElem? (hat row hrow))
  refine ⟨(rows.map Row.record).map fun r => r.restrict query.display, rows.map Row.number, ?_, ?_⟩
  · simp only [run, harrange, projectFrom_of_complete 0 hrows, bind, Except.bind]
  · refine ⟨hnodup, fun i => ?_, fun hsort => ?_, fun field hsort => ?_, by simp, ?_⟩
    · rw [List.mem_map]
      constructor
      · rintro ⟨row, hrow, rfl⟩
        exact ⟨row.record, hat row hrow, ((hmem row).1 hrow).2⟩
      · rintro ⟨r, hr, haccepts⟩
        exact ⟨⟨i, r⟩, (hmem ⟨i, r⟩).2 ⟨mem_rowsFrom_zero.2 hr, haccepts⟩, rfl⟩
    · exact List.pairwise_map.2 (hnone hsort)
    · refine List.pairwise_map.2 ((hsome field hsort).imp_of_mem fun {a b} ha hb hab => ?_)
      obtain ⟨c, d, hc, hd, hle, hties⟩ := hab
      exact ⟨_, _, c, d, hat a ha, hat b hb, hc, hd, hle, hties⟩
    · intro k i part hi hpart
      simp only [List.getElem?_map, Option.map_eq_some_iff] at hi hpart
      obtain ⟨row, hrow, rfl⟩ := hi
      obtain ⟨_, ⟨row', hrow', rfl⟩, rfl⟩ := hpart
      obtain rfl : row = row' := Option.some.inj (hrow.symm.trans hrow')
      have hin := List.mem_of_getElem? hrow
      exact ⟨row.record, hat row hin, shows_restrict (hrows _ (List.mem_map_of_mem hin))⟩

end Execution

end CourseQuery
