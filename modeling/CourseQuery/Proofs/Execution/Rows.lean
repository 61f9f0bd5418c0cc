import CourseQuery.Execution
import CourseQuery.Proofs.Filter.Meaning
import CourseQuery.Proofs.Steps

/-!
# Rows through selection and sorting

Rows carry the position of their record in the dataset. Selection keeps a sublist of the rows,
namely those whose record satisfies the filter. Sorting rows by a key permutes them so that the
keys do not decrease and rows of one key keep the order of their positions: the rows of one key
form a sublist that is already sorted, and a stable sort leaves such a sublist alone.
-/

set_option autoImplicit false

namespace CourseQuery.Execution

/-! ## Positions -/

/-- Rows are records with their numbers. -/
theorem rowsFrom_eq_map (start : Nat) (records : List Record) :
    rowsFrom start records = (records.zipIdx start).map fun (r, i) => ⟨i, r⟩ := by
  induction records generalizing start with
  | nil => rfl
  | cons r rs ih => simp [rowsFrom, ih]

/-- The records of the rows are the records. -/
theorem map_record_rowsFrom (start : Nat) (records : List Record) :
    (rowsFrom start records).map Row.record = records := by
  induction records generalizing start with
  | nil => rfl
  | cons r rs ih => rw [rowsFrom, List.map_cons, ih]

/-- A row holds the record at its position. -/
theorem mem_rowsFrom_zero {records : List Record} {row : Row} :
    row ∈ rowsFrom 0 records ↔ records[row.number]? = some row.record := by
  obtain ⟨i, r⟩ := row
  rw [rowsFrom_eq_map, List.mem_map]
  constructor
  · rintro ⟨⟨s, j⟩, hmem, heq⟩
    cases heq
    exact List.mk_mem_zipIdx_iff_getElem?.1 hmem
  · intro h
    exact ⟨(r, i), List.mk_mem_zipIdx_iff_getElem?.2 h, rfl⟩

/-- The positions of rows increase. -/
theorem rowsFrom_pairwise (start : Nat) (records : List Record) :
    (rowsFrom start records).Pairwise fun a b => a.number < b.number := by
  induction records generalizing start with
  | nil => exact List.Pairwise.nil
  | cons r rs ih =>
    refine List.pairwise_cons.2 ⟨fun row hrow => ?_, ih (start + 1)⟩
    rw [rowsFrom_eq_map, List.mem_map] at hrow
    obtain ⟨⟨s, i⟩, hmem, rfl⟩ := hrow
    have hle := List.le_snd_of_mem_zipIdx hmem
    dsimp only at hle ⊢
    omega

/-! ## Selection -/

/-- Whether the test of a filter succeeds on a row and holds. -/
def keeps (e : Filter) (row : Row) : Bool :=
  match e.test row.record with
  | .ok b => b
  | .error _ => false

/-- Where every test succeeds, selection is filtering. -/
theorem selectRows_eq_filter {e : Filter} {rows : List Row}
    (h : ∀ row ∈ rows, ∃ b, e.test row.record = .ok b) :
    selectRows e rows = .ok (rows.filter (keeps e)) := by
  induction rows with
  | nil => rfl
  | cons row rows ih =>
    obtain ⟨b, hb⟩ := h row List.mem_cons_self
    have hrest := ih fun row' hrow' => h row' (List.mem_cons_of_mem _ hrow')
    have hkeeps : keeps e row = b := by simp only [keeps, hb]
    have htest : row.test e = .ok b := mapError_eq_ok_iff.2 hb
    rw [selectRows, htest, hrest, List.filter_cons, hkeeps]
    rfl

/-- A filter that can be tested on every record selects by filtering. -/
theorem select_eq_filter {e : Filter} {records : List Record}
    (h : ∀ r ∈ records, ∃ b, e.test r = .ok b) :
    select e records = .ok ((rowsFrom 0 records).filter (keeps e)) := by
  by_cases hall : e = .everything
  · subst hall
    exact congrArg Except.ok (List.filter_eq_self.2 fun row _ => rfl).symm
  · rw [select.eq_2 _ _ hall]
    apply selectRows_eq_filter
    intro row hrow
    exact h _ (List.mem_of_getElem? (mem_rowsFrom_zero.1 hrow))

/-- A row is kept if its record is accepted. -/
theorem keeps_iff {e : Filter} {row : Row} (he : e.WellTyped) (hrow : row.record.Complete) :
    keeps e row = true ↔ e.Accepts row.record := by
  obtain ⟨b, hb, hiff⟩ := Filter.test_of_complete he hrow
  rw [← hiff]
  simp only [keeps, hb]

/-- Over complete records a well typed filter selects the rows whose records satisfy it. -/
theorem select_of_complete {e : Filter} {records : List Record} (he : e.WellTyped)
    (hrecords : ∀ r ∈ records, r.Complete) :
    ∃ rows, select e records = .ok rows ∧ rows.Sublist (rowsFrom 0 records) ∧
      ∀ row, row ∈ rows ↔ row ∈ rowsFrom 0 records ∧ e.Accepts row.record := by
  have htest : ∀ r ∈ records, ∃ b, e.test r = .ok b := by
    intro r hr
    exact (Filter.test_of_complete he (hrecords r hr)).imp fun _ h => h.1
  refine ⟨_, select_eq_filter htest, List.filter_sublist, fun row => ?_⟩
  rw [List.mem_filter]
  apply and_congr_right
  intro hrow
  exact keeps_iff he (hrecords _ (List.mem_of_getElem? (mem_rowsFrom_zero.1 hrow)))

/-! ## Sorting -/

section Sorting

variable {κ : Type} [DecidableEq κ] [LE κ] [DecidableLE κ] [Std.IsLinearOrder κ]

/-- Sorting rows by a key puts them in the order of the keys, and rows of one key in the order of
their positions. -/
theorem mergeSort_pairwise {le : Row → Row → Bool} (key : Row → κ) {rows : List Row}
    (hle : ∀ a ∈ rows, ∀ b ∈ rows, le a b = decide (key a ≤ key b))
    (hrows : rows.Pairwise fun a b => a.number < b.number) :
    (rows.mergeSort le).Pairwise fun a b =>
      key a ≤ key b ∧ (key b ≤ key a → a.number < b.number) := by
  have htrans : ∀ a b c : Row, decide (key a ≤ key b) = true → decide (key b ≤ key c) = true →
      decide (key a ≤ key c) = true := by
    intro a b c hab hbc
    exact decide_eq_true (Std.le_trans (of_decide_eq_true hab) (of_decide_eq_true hbc))
  have htotal : ∀ a b : Row, (decide (key a ≤ key b) || decide (key b ≤ key a)) = true := by
    intro a b
    simpa using Std.le_total (a := key a) (b := key b)
  have hsame : rows.mergeSort le = rows.mergeSort fun a b => decide (key a ≤ key b) := by
    simpa using List.map_mergeSort (f := id) hle
  rw [hsame, List.pairwise_iff_forall_sublist]
  intro a b hab
  have hkeys := List.pairwise_iff_forall_sublist.1 (List.pairwise_mergeSort htrans htotal rows) hab
  refine ⟨of_decide_eq_true hkeys, fun hba => ?_⟩
  have hkey : key b = key a := Std.le_antisymm hba (of_decide_eq_true hkeys)
  -- the rows with the key of `a` stand in the sorted list as they stood before
  let same : Row → Bool := fun row => decide (key row = key a)
  have hsorted : (rows.filter same).Pairwise fun a b => decide (key a ≤ key b) = true := by
    refine List.Pairwise.imp_of_mem (R := fun _ _ => True) ?_ (List.pairwise_of_forall (by simp))
    intro x y hx hy _
    have hx := of_decide_eq_true (List.mem_filter.1 hx).2
    have hy := of_decide_eq_true (List.mem_filter.1 hy).2
    exact decide_eq_true (by rw [hx, hy]; exact Std.le_refl _)
  have hsub := (List.sublist_mergeSort htrans htotal hsorted List.filter_sublist).filter same
  simp only [List.filter_filter, Bool.and_self] at hsub
  have heq := hsub.eq_of_length ((List.mergeSort_perm _ _).filter same).length_eq.symm
  have hab' := hab.filter same
  rw [← heq, List.filter_cons_of_pos (by simp [same]),
    List.filter_cons_of_pos (by simp [same, hkey]), List.filter_nil] at hab'
  exact List.pairwise_iff_forall_sublist.1 (hrows.filter same) hab'

end Sorting

end CourseQuery.Execution
