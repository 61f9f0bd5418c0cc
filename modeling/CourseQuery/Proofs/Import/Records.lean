import CourseQuery.Import.Archive
import CourseQuery.Proofs.Number.Integers
import CourseQuery.Proofs.Record.Complete
import CourseQuery.Proofs.Steps

/-!
# What an import yields

Every record that is imported is complete and its numbers are finite: a row says what each field
holds (`Columns`), a count has 64 bits, and an average that is not finite is no average. Only course
datasets are imported at all.
-/

set_option autoImplicit false

namespace CourseQuery

namespace Section

/-- A number that is read in 64 bits has a magnitude that fits in 64 bits. -/
theorem natAbs_lt_of_int64? {s : String} {i : Int} (h : int64? s = some i) :
    i.natAbs < UInt64.size := by
  simp only [int64?, Option.ite_none_right_eq_some] at h
  obtain ⟨⟨-, hmin, hmax⟩, hi⟩ := h
  have hminValue : Int64.minValue.toInt = -9223372036854775808 := by decide
  have hmaxValue : Int64.maxValue.toInt = 9223372036854775807 := by decide
  have hsize : UInt64.size = 18446744073709551616 := rfl
  rw [Option.some.inj hi, hminValue] at hmin
  rw [Option.some.inj hi, hmaxValue] at hmax
  omega

/-- A count that is read is the number nearest to an integer of 64 bits. -/
theorem exists_of_readCount {field : Field} {raw : String} {x : Binary64}
    (h : readCount field raw = .ok x) : ∃ i : Int, i.natAbs < UInt64.size ∧ x = .ofInt i := by
  cases hread : int64? (Text.trim raw) with
  | none =>
    simp only [readCount, hread] at h
    exact nomatch h
  | some i =>
    simp only [readCount, hread] at h
    exact ⟨i, natAbs_lt_of_int64? hread, (Except.ok.inj h).symm⟩

/-- A count is finite. -/
theorem readCount_isFinite {field : Field} {raw : String} {x : Binary64}
    (h : readCount field raw = .ok x) : x.isFinite = true := by
  obtain ⟨i, hi, rfl⟩ := exists_of_readCount h
  exact Binary64.ofInt_isFinite hi

/-- A count is an integer. -/
theorem readCount_isInteger {field : Field} {raw : String} {x : Binary64}
    (h : readCount field raw = .ok x) : ∃ i, x.toInt? = some i := by
  obtain ⟨i, hi, rfl⟩ := exists_of_readCount h
  exact Binary64.exists_toInt?_ofInt hi

/-- An average is finite. -/
theorem readAverage_isFinite {raw : String} {x : Binary64} (h : readAverage raw = .ok x) :
    x.isFinite = true := by
  cases hread : Binary64.ofGeneral? (Text.trim raw) with
  | none =>
    simp only [readAverage, hread] at h
    exact nomatch h
  | some y =>
    simp only [readAverage, hread] at h
    by_cases hfinite : y.isFinite = true
    · rw [if_pos hfinite] at h
      rw [← Except.ok.inj h]
      exact hfinite
    · rw [if_neg hfinite] at h
      exact nomatch h

/-- What a row says. -/
structure Values where
  title : String
  uuid : String
  instructor : String
  audit : Binary64
  id : String
  pass : Binary64
  fail : Binary64
  average : Binary64
  department : String

/-- The record with the values of a row. -/
def Values.record (v : Values) : Record where
  cell
    | .department => some (.text v.department)
    | .id => some (.text v.id)
    | .average => some (.number v.average)
    | .instructor => some (.text v.instructor)
    | .title => some (.text v.title)
    | .pass => some (.number v.pass)
    | .fail => some (.number v.fail)
    | .audit => some (.number v.audit)
    | .uuid => some (.text v.uuid)

/-- The columns of a row and what they say: of ten or more columns the year and those behind the
tenth say nothing. -/
inductive Columns : List String → Values → Prop
  | mk {title uuid instructor year id dept : String} {audit pass fail average : String}
      {more : List String} {a p f x : Binary64} :
      readCount .audit audit = .ok a → readCount .pass pass = .ok p →
      readCount .fail fail = .ok f → readAverage average = .ok x →
      Columns (title :: uuid :: instructor :: audit :: year :: id :: pass :: fail :: average ::
        dept :: more) ⟨title, uuid, instructor, a, id, p, f, x, dept⟩

/-- Columns are read as a record exactly when they say what it holds. -/
theorem readColumns_eq_ok_iff {columns : List String} {r : Record} :
    readColumns columns = .ok r ↔ ∃ v, Columns columns v ∧ r = v.record := by
  have hrecord : ∀ v : Values, Record.ofCells
      [(.title, .text v.title), (.uuid, .text v.uuid), (.instructor, .text v.instructor),
       (.audit, .number v.audit), (.id, .text v.id), (.pass, .number v.pass),
       (.fail, .number v.fail), (.average, .number v.average),
       (.department, .text v.department)] = v.record := by
    intro v
    refine congrArg Record.mk (funext fun f => ?_)
    cases f <;> rfl
  constructor
  · intro h
    unfold readColumns at h
    split at h
    · obtain ⟨a, haudit, h⟩ := bind_eq_ok_iff.1 h
      obtain ⟨p, hpass, h⟩ := bind_eq_ok_iff.1 h
      obtain ⟨f, hfail, h⟩ := bind_eq_ok_iff.1 h
      obtain ⟨x, haverage, h⟩ := bind_eq_ok_iff.1 h
      refine ⟨_, .mk haudit hpass hfail haverage, ?_⟩
      exact (Except.ok.inj h).symm.trans (hrecord ⟨_, _, _, a, _, p, f, x, _⟩)
    · contradiction
  · rintro ⟨v, ⟨haudit, hpass, hfail, haverage⟩, rfl⟩
    rw [← hrecord]
    refine bind_eq_ok_iff.2 ⟨_, haudit, bind_eq_ok_iff.2 ⟨_, hpass, ?_⟩⟩
    exact bind_eq_ok_iff.2 ⟨_, hfail, bind_eq_ok_iff.2 ⟨_, haverage, rfl⟩⟩

/-- A record of the values of a row is complete. -/
theorem Values.record_complete (v : Values) : v.record.Complete := by
  intro f
  cases f <;> exact ⟨_, rfl, rfl⟩

/-- The numbers of a row are finite. -/
theorem Columns.finite {columns : List String} {v : Values} (h : Columns columns v) :
    v.record.Finite := by
  obtain ⟨haudit, hpass, hfail, haverage⟩ := h
  intro f x hx
  cases f <;> cases hx
  · exact readAverage_isFinite haverage
  · exact readCount_isFinite hpass
  · exact readCount_isFinite hfail
  · exact readCount_isFinite haudit

/-- The counts of a row are integers. -/
theorem Columns.whole {columns : List String} {v : Values} (h : Columns columns v) :
    ∀ f ∈ [Field.pass, .fail, .audit],
      ∃ x i, v.record.cell f = some (.number x) ∧ x.toInt? = some i := by
  obtain ⟨haudit, hpass, hfail, -⟩ := h
  obtain ⟨_, ha⟩ := readCount_isInteger haudit
  obtain ⟨_, hp⟩ := readCount_isInteger hpass
  obtain ⟨_, hf⟩ := readCount_isInteger hfail
  simp only [List.forall_mem_cons, List.not_mem_nil, false_implies, implies_true, and_true]
  exact ⟨⟨_, _, rfl, hp⟩, ⟨_, _, rfl, hf⟩, ⟨_, _, rfl, ha⟩⟩

/-- Lines read one after another, of which the first has the given number. -/
def readLines : (number : Nat) → List (List Char) → List Line
  | _, [] => []
  | number, line :: rest => readLine number line :: readLines (number + 1) rest

/-- The lines of a section are those behind its header, numbered from 2. -/
theorem lines_eq_readLines (text : String) :
    lines text = readLines 2 ((Text.split '\n' text.toList).drop 1) := by
  have hzip : ∀ (rest : List (List Char)) (index : Nat),
      ((rest.zipIdx index).map fun entry => readLine (entry.2 + 2) entry.1) =
        readLines (index + 2) rest := by
    intro rest
    induction rest with
    | nil => exact fun _ => rfl
    | cons line rest ih =>
      intro index
      rw [List.zipIdx_cons, List.map_cons, readLines, ih]
  exact hzip _ 0

/-- A row that is read is complete and finite. -/
theorem readLine_complete {number : Nat} {line : List Char} {r : Record}
    (h : (readLine number line).record? = some r) : r.Complete ∧ r.Finite := by
  unfold readLine at h
  dsimp only at h
  split at h
  · contradiction
  · split at h
    · rename_i record hrow
      obtain rfl : record = r := Option.some.inj h
      obtain ⟨v, hcolumns, rfl⟩ := readColumns_eq_ok_iff.1 hrow
      exact ⟨v.record_complete, hcolumns.finite⟩
    · contradiction

/-- The records of a section are complete and finite. -/
theorem record?_complete {text : String} {r : Record}
    (h : r ∈ (lines text).filterMap Line.record?) : r.Complete ∧ r.Finite := by
  obtain ⟨line, hline, hr⟩ := List.mem_filterMap.1 h
  obtain ⟨⟨s, i⟩, -, rfl⟩ := List.mem_map.1 hline
  exact readLine_complete hr

end Section

namespace Import

/-- What is imported is a course dataset of complete records with finite numbers. -/
theorem ofArchive_complete {archive : Bytes} {kind : DatasetKind} {records : List Record}
    (h : (ofArchive archive kind).1 = .ok records) :
    kind = .courses ∧ ∀ r ∈ records, r.Complete ∧ r.Finite := by
  unfold ofArchive at h
  split at h
  · rename_i hkind
    refine ⟨hkind, fun r hr => ?_⟩
    split at h
    · contradiction
    · rename_i entries hentries
      unfold ofFiles at h
      dsimp only at h
      split at h
      · contradiction
      · rw [← Except.ok.inj h] at hr
        obtain ⟨s, -, hs⟩ := List.mem_flatMap.1 hr
        exact Section.record?_complete hs
  · contradiction

/-- An archive without any record is refused. -/
theorem ofArchive_ne_nil {archive : Bytes} {kind : DatasetKind} {records : List Record}
    (h : (ofArchive archive kind).1 = .ok records) : records ≠ [] := by
  unfold ofArchive at h
  split at h
  · split at h
    · contradiction
    · unfold ofFiles at h
      dsimp only at h
      split at h
      · contradiction
      · rename_i hfound
        rw [← Except.ok.inj h]
        exact fun hnil => hfound (List.isEmpty_iff.2 hnil)
  · contradiction

/-! ## An archive with one record -/

/-- An archive with one section and one record. -/
def oneRecord : Bytes :=
  Zip.writeStored [⟨"courses/A", Text.Utf8.encode
    "title|uuid|instructor|audit|year|id|pass|fail|avg|dept\nintro|1|lee|0|2015|110|9|8|78.5|cpsc"⟩]

/-- The cells of the record; the average is 78.5. -/
def oneRecordCells : List (Field × Cell) :=
  [(.department, .text "cpsc"), (.id, .text "110"),
   (.average, .number (.signed false ⟨0x4053A00000000000, by decide⟩)),
   (.instructor, .text "lee"), (.title, .text "intro"), (.pass, .number (.ofInt 9)),
   (.fail, .number (.ofInt 8)), (.audit, .number (.ofInt 0)), (.uuid, .text "1")]

set_option maxRecDepth 100000 in
/-- The archive holds the record. -/
theorem cells_oneRecord :
    ∃ r, (ofArchive oneRecord .courses).1 = .ok [r] ∧ r.cells = oneRecordCells := by
  have himport : (ofArchive oneRecord .courses).1.toOption.map (List.map Record.cells) =
      some [oneRecordCells] := by
    decide +kernel
  generalize (ofArchive oneRecord .courses).1 = imported at himport
  cases imported with
  | error fault => simp [Except.toOption] at himport
  | ok records =>
    obtain ⟨r, rfl, hr⟩ := List.map_eq_singleton_iff.1 (Option.some.inj himport)
    exact ⟨r, rfl, hr⟩

end Import

end CourseQuery
