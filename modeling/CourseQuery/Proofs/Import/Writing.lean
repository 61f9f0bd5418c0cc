import CourseQuery.Proofs.Import.Records
import CourseQuery.Proofs.Number.General
import CourseQuery.Proofs.Text.Blank
import CourseQuery.Proofs.Text.Split
import CourseQuery.Proofs.Text.Utf8

/-!
# Sections read back

A section that is written row by row (`Sheet`), with any ends of lines and any blank lines between
the rows, is read as the records of these rows, in order and without a warning. The columns of a row
are told apart again because no text of a column holds a mark, and its numbers are read as what
they denote because every text of them is one that the readers take up.
-/

set_option autoImplicit false

namespace CourseQuery

open Text (isBlank)

namespace Section

/-! ## What is written -/

/-- A text that can stand in a column. -/
structure Column where
  text : List Char
  unmarked : '|' ∉ text
  unbroken : '\n' ∉ text

/-- An integer of 64 bits with a text for it. -/
structure Count where
  text : List Char
  value : Int
  whole : Numeral.Whole text value
  min : Int64.minValue.toInt ≤ value
  max : value ≤ Int64.maxValue.toInt

/-- A finite number with a text for it. -/
structure Average where
  text : List Char
  value : Binary64
  general : Numeral.General text value
  finite : value.isFinite = true

/-- The values of a row as they are to be written. -/
structure Row where
  title : Column
  uuid : Column
  instructor : Column
  audit : Count
  year : Column
  id : Column
  pass : Count
  fail : Count
  average : Average
  department : Column
  /-- A carriage return at the end would be one of the line. -/
  department_end : department.text.getLast? ≠ some '\r'

/-- The record with the values of a row, of which the year is none. -/
def Row.record (r : Row) : Record where
  cell
    | .department => some (.text (String.ofList r.department.text))
    | .id => some (.text (String.ofList r.id.text))
    | .average => some (.number r.average.value)
    | .instructor => some (.text (String.ofList r.instructor.text))
    | .title => some (.text (String.ofList r.title.text))
    | .pass => some (.number (.ofInt r.pass.value))
    | .fail => some (.number (.ofInt r.fail.value))
    | .audit => some (.number (.ofInt r.audit.value))
    | .uuid => some (.text (String.ofList r.uuid.text))

/-- The columns of a row in the order of the header. -/
def Row.columns (r : Row) : List (List Char) :=
  [r.title.text, r.uuid.text, r.instructor.text, r.audit.text, r.year.text, r.id.text,
    r.pass.text, r.fail.text, r.average.text, r.department.text]

/-- The characters of a row. -/
def Row.chars (r : Row) : List Char :=
  List.intercalate ['|'] r.columns

/-- A line behind the header: a row, or one that is blank. -/
inductive Written where
  | row (r : Row)
  | blank (line : List Char) (hblank : ∀ c ∈ line, isBlank c = true) (hbreak : '\n' ∉ line)

/-- The characters of a line. -/
def Written.chars : Written → List Char
  | row r => r.chars
  | blank line _ _ => line

/-- The row of a line, if it is one. -/
def Written.row? : Written → Option Row
  | row r => some r
  | blank .. => none

/-- The end of a line. -/
inductive LineEnd where
  | newline
  | returnNewline

/-- A carriage return, where the end of a line has one. -/
def LineEnd.return : LineEnd → List Char
  | newline => []
  | returnNewline => ['\r']

/-- The characters of the end of a line. -/
def LineEnd.chars (e : LineEnd) : List Char :=
  e.return ++ ['\n']

/-- Lines, each behind the end of the one before it. -/
def written (lines : List (LineEnd × Written)) : List Char :=
  lines.flatMap fun (e, line) => e.chars ++ line.chars

/-- A section to be written. -/
structure Sheet where
  header : List Char
  unbroken : '\n' ∉ header
  lines : List (LineEnd × Written)
  /-- The end of the last line, which may be left out. -/
  last : Option LineEnd

/-- The text of a section. -/
def Sheet.text (s : Sheet) : String :=
  String.ofList (s.header ++ written s.lines ++ (s.last.map LineEnd.chars).getD [])

/-- The rows of a section. -/
def Sheet.rows (s : Sheet) : List Row :=
  s.lines.filterMap fun (_, line) => line.row?

/-! ## Rows -/

/-- A character that can stand in a number neither is blank nor ends a column or a line. -/
theorem not_blank_of_isNumeric {c : Char} (h : Numeral.isNumeric c = true) :
    isBlank c = false ∧ c ≠ '|' ∧ c ≠ '\n' := by
  simp only [Numeral.isNumeric, Bool.or_eq_true, beq_iff_eq] at h
  rcases h with ((((hdigit | rfl) | rfl) | rfl) | rfl) | rfl
  · exact ⟨Text.isBlank_of_isDigit hdigit, Numeral.ne_of_isDigit (by decide) hdigit,
      Numeral.ne_of_isDigit (by decide) hdigit⟩
  all_goals decide

/-- A numeral holds neither a mark between cells nor the end of a line. -/
theorem not_mem_of_isNumeric {text : List Char} (h : ∀ c ∈ text, Numeral.isNumeric c = true) :
    '|' ∉ text ∧ '\n' ∉ text :=
  ⟨fun hmark => (not_blank_of_isNumeric (h _ hmark)).2.1 rfl,
    fun hbreak => (not_blank_of_isNumeric (h _ hbreak)).2.2 rfl⟩

/-- A count that is written is read back. -/
theorem readCount_text (field : Field) (n : Count) :
    readCount field (String.ofList n.text) = .ok (.ofInt n.value) := by
  have htrim := Text.trim_of_not_blank fun c hc =>
    (not_blank_of_isNumeric (n.whole.isNumeric c hc)).1
  rw [readCount, htrim, Numeral.int64?_of_whole n.whole n.min n.max]

/-- An average that is written is read back. -/
theorem readAverage_text (a : Average) : readAverage (String.ofList a.text) = .ok a.value := by
  have htrim := Text.trim_of_not_blank fun c hc =>
    (not_blank_of_isNumeric (a.general.isNumeric c hc)).1
  rw [readAverage, htrim, Numeral.ofGeneral?_of_general a.general]
  exact if_pos a.finite

/-- No column of a row holds what ends a column or a line. -/
theorem Row.not_mem_of_mem_columns {r : Row} {text : List Char} (h : text ∈ r.columns) :
    '|' ∉ text ∧ '\n' ∉ text := by
  have hcolumn : ∀ c : Column, '|' ∉ c.text ∧ '\n' ∉ c.text := fun c => ⟨c.unmarked, c.unbroken⟩
  have hcount : ∀ n : Count, '|' ∉ n.text ∧ '\n' ∉ n.text := fun n =>
    not_mem_of_isNumeric n.whole.isNumeric
  have haverage := not_mem_of_isNumeric r.average.general.isNumeric
  revert text
  simp only [Row.columns, List.forall_mem_cons, hcolumn, hcount, haverage, not_false_eq_true,
    and_self, List.not_mem_nil, false_implies, implies_true]

/-- A row that is written holds no end of a line. -/
theorem Row.not_mem_chars (r : Row) : '\n' ∉ r.chars :=
  Text.not_mem_intercalate (by decide) fun _ htext => (Row.not_mem_of_mem_columns htext).2

/-- A row is read as its record. -/
theorem readRow_chars (r : Row) : readRow (String.ofList r.chars) = .ok r.record := by
  have hsplit : Text.split '|' r.chars = r.columns :=
    Text.split_intercalate nofun fun _ htext => (Row.not_mem_of_mem_columns htext).1
  rw [readRow, String.toList_ofList, hsplit]
  exact readColumns_eq_ok_iff.2 ⟨_, .mk (readCount_text .audit r.audit)
    (readCount_text .pass r.pass) (readCount_text .fail r.fail) (readAverage_text r.average), rfl⟩

/-! ## Lines -/

/-- The end of a row is its department, behind a mark. -/
theorem Row.exists_chars (r : Row) : ∃ front, r.chars = front ++ '|' :: r.department.text := by
  refine ⟨List.intercalate ['|'] r.columns.dropLast, ?_⟩
  simp [Row.chars, Row.columns, List.intercalate]

/-- A row is read without the carriage return behind it. -/
theorem Row.withoutReturn_chars (r : Row) (e : LineEnd) :
    withoutReturn (r.chars ++ e.return) = r.chars := by
  obtain ⟨front, hchars⟩ := r.exists_chars
  have hend : r.chars.getLast? ≠ some '\r' := by
    rw [hchars, List.getLast?_append, List.getLast?_cons, Option.some_or]
    intro hreturn
    cases hlast : r.department.text.getLast? with
    | none =>
      rw [hlast] at hreturn
      exact absurd hreturn (by decide)
    | some c =>
      rw [hlast] at hreturn
      exact r.department_end (hlast.trans hreturn)
  cases e with
  | newline =>
    rw [LineEnd.return, List.append_nil]
    exact if_neg hend
  | returnNewline =>
    rw [LineEnd.return, withoutReturn, List.getLast?_concat, if_pos rfl, List.dropLast_concat]

/-- What a line is to be read as. -/
def Written.line : Written → Line
  | row r => .row r.record
  | blank .. => .blank

/-- Whatever is written on a line holds no end of a line. -/
theorem Written.not_mem_chars (line : Written) : '\n' ∉ line.chars := by
  cases line with
  | row r => exact r.not_mem_chars
  | blank _ _ hbreak => exact hbreak

/-- A line is read as what it is, whatever its end. -/
theorem readLine_chars (number : Nat) (line : Written) (e : LineEnd) :
    readLine number (line.chars ++ e.return) = line.line := by
  cases line with
  | row r =>
    have hmark : '|' ∈ r.chars := by
      obtain ⟨front, hchars⟩ := r.exists_chars
      simp [hchars]
    have hfull : r.chars.all isBlank ≠ true := fun hblank =>
      absurd (List.all_eq_true.1 hblank _ hmark) (by decide)
    simp only [readLine, Written.chars, r.withoutReturn_chars e, if_neg hfull, readRow_chars]
    rfl
  | blank line hblank =>
    have hline : (withoutReturn (line ++ e.return)).all isBlank = true := by
      have hall : ∀ c ∈ line ++ e.return, isBlank c = true := by
        intro c hc
        rcases List.mem_append.1 hc with hc | hc
        · exact hblank c hc
        · cases e <;> cases hc
          · decide
          · contradiction
      refine List.all_eq_true.2 fun c hc => hall c ?_
      unfold withoutReturn at hc
      split at hc
      · exact List.dropLast_subset _ hc
      · exact hc
    simp only [readLine, Written.chars, hline, if_true]
    rfl

/-- A text in front of lines is split off with its line end, and the lines are read one by one. -/
theorem exists_split_written {front : List Char} (hfront : '\n' ∉ front)
    (lines : List (LineEnd × Written)) :
    ∃ e tail, Text.split '\n' (front ++ written lines) = (front ++ LineEnd.return e) :: tail ∧
      ∀ number, readLines number tail = lines.map fun (_, line) => line.line := by
  induction lines generalizing front with
  | nil =>
    refine ⟨.newline, [], ?_, fun _ => rfl⟩
    rw [written, List.flatMap_nil, LineEnd.return]
    exact Text.split_of_not_mem [] _ (by simpa using hfront)
  | cons head lines ih =>
    obtain ⟨e, line⟩ := head
    obtain ⟨e', tail, hsplit, htail⟩ := ih line.not_mem_chars
    have hreturn : '\n' ∉ front ++ e.return := by
      cases e <;> simp [LineEnd.return, hfront]
    refine ⟨e, (line.chars ++ e'.return) :: tail, ?_, fun number => ?_⟩
    · have hcons : front ++ written ((e, line) :: lines) =
          (front ++ e.return) ++ '\n' :: (line.chars ++ written lines) := by
        simp [written, LineEnd.chars]
      rw [hcons, Text.split_append_cons _ hreturn, hsplit]
    · rw [readLines, readLine_chars, htail (number + 1), List.map_cons]

/-! ## Sections -/

/-- The lines of a section, with the empty one behind the end of the last. -/
def Sheet.allLines (s : Sheet) : List (LineEnd × Written) :=
  s.lines ++ s.last.toList.map fun e => (e, .blank [] nofun nofun)

/-- A sheet is its header and its lines. -/
theorem Sheet.toList_text (s : Sheet) : s.text.toList = s.header ++ written s.allLines := by
  have hlast : (s.last.map LineEnd.chars).getD [] =
      written (s.last.toList.map fun e => (e, .blank [] nofun nofun)) := by
    cases s.last <;> simp [written, Written.chars]
  rw [Sheet.text, String.toList_ofList, hlast, List.append_assoc]
  simp [Sheet.allLines, written]

/-- A sheet is read line by line. -/
theorem lines_text (s : Sheet) : lines s.text = s.allLines.map fun (_, line) => line.line := by
  obtain ⟨e, tail, hsplit, htail⟩ := exists_split_written s.unbroken s.allLines
  rw [lines_eq_readLines, s.toList_text, hsplit, List.drop_one, List.tail_cons, htail]

/-- The records of a section that was written are those of its rows. -/
theorem record?_lines_text (s : Sheet) :
    (lines s.text).filterMap Line.record? = s.rows.map Row.record := by
  have hlast : (s.last.toList.map fun e => (e, Written.blank [] nofun nofun)).filterMap
      (Line.record? ∘ fun (_, line) => line.line) = [] := by
    cases s.last <;> rfl
  rw [lines_text, List.filterMap_map, Sheet.allLines, List.filterMap_append, hlast,
    List.append_nil, Sheet.rows, List.map_filterMap]
  refine congrArg (List.filterMap · s.lines) (funext fun (_, line) => ?_)
  cases line <;> rfl

/-- No line of a section that was written has a fault. -/
theorem skipped?_lines_text (s : Sheet) : (lines s.text).filterMap Line.skipped? = [] := by
  rw [lines_text, List.filterMap_map, List.filterMap_eq_nil_iff]
  intro (_, line) _
  cases line <;> rfl

end Section

namespace Import

open Section (Sheet Row)

/-- A section that is written row by row below `courses/`, with a text that is long enough, is
imported as the records of its rows, in order and without a warning. -/
theorem ofFiles_written (s : Sheet) {path : String} (hpath : directory <+: plainPath path.toList)
    (hlong : shortLength < Text.Utf8.size s.text.toList) :
    ofFiles [⟨path, Text.Utf8.encode s.text⟩] =
      (if s.rows.isEmpty then .error (.noRows 1) else .ok (s.rows.map Row.record), []) := by
  have hsection : section? ⟨path, Text.Utf8.encode s.text⟩ =
      some ⟨String.ofList (plainPath path.toList), s.text⟩ := by
    simp only [section?, Text.Utf8.decodeLossy_encode]
    exact if_pos ⟨List.isPrefixOf_iff_prefix.2 hpath, hlong⟩
  have hrecords : records [⟨String.ofList (plainPath path.toList), s.text⟩] =
      s.rows.map Row.record := by
    rw [records, List.flatMap_singleton, Section.record?_lines_text]
  have hskipped : skipped [⟨String.ofList (plainPath path.toList), s.text⟩] = [] := by
    have hnone := List.filterMap_eq_nil_iff.1 (Section.skipped?_lines_text s)
    rw [skipped, List.flatMap_singleton, List.filterMap_eq_nil_iff]
    exact fun line hline => by rw [hnone line hline, Option.map_none]
  rw [ofFiles, List.filterMap_cons, hsection, List.filterMap_nil]
  simp only [hrecords, hskipped, List.isEmpty_map, List.length_singleton]

/-- An average of 78.5 with an exponent. -/
def sampleAverage : Section.Average where
  text := ['7', '8', '5', '.', '0', 'e', '-', '1']
  value := Numeral.value ⟨false, ['7', '8', '5'], ['0'], -1⟩
  general := by
    have hdigits : Numeral.Digits (['7', '8', '5'] ++ ['0']) := Numeral.allDigits_iff.1 (by decide)
    have hexponent : Numeral.Exponent ['e', '-', '1'] (-1) :=
      .some (.inl rfl) .minus (Numeral.allDigits_iff.1 (by decide))
    exact .mk .none (.point hdigits) hexponent
  finite := by decide +kernel

/-- A row with a carriage return inside, an empty column and the least count. -/
def sampleRow : Row where
  title := ⟨"intro \x0d\"x\"".toList, by decide +kernel, by decide +kernel⟩
  uuid := ⟨[], by decide, by decide⟩
  instructor := ⟨"lee, kim".toList, by decide +kernel, by decide +kernel⟩
  audit := ⟨'-' :: Nat.toDigits 10 9223372036854775808, -9223372036854775808,
    .mk .minus (Numeral.digits_toDigits _), by decide, by decide⟩
  year := ⟨"2015".toList, by decide +kernel, by decide +kernel⟩
  id := ⟨"110".toList, by decide +kernel, by decide +kernel⟩
  pass := ⟨['0', '9'], 9, .mk .none (Numeral.allDigits_iff.1 (by decide)), by decide, by decide⟩
  fail := ⟨['+', '8'], 8, .mk .plus (Numeral.allDigits_iff.1 (by decide)), by decide, by decide⟩
  average := sampleAverage
  department := ⟨"cpsc".toList, by decide +kernel, by decide +kernel⟩
  department_end := by decide +kernel

/-- A section with the row twice, a blank line between them and a line end behind them. -/
def sampleSheet : Sheet where
  header := "title".toList
  unbroken := by decide +kernel
  lines := [(.newline, .row sampleRow),
    (.returnNewline, .blank [' '] (List.forall_mem_singleton.2 rfl) (by decide)),
    (.returnNewline, .row sampleRow)]
  last := some .newline

/-- A sheet of two rows is imported as their two records without a warning. -/
theorem ofFiles_sampleSheet :
    directory <+: plainPath "./courses/A".toList ∧
      shortLength < Text.Utf8.size sampleSheet.text.toList ∧
      ofFiles [⟨"./courses/A", Text.Utf8.encode sampleSheet.text⟩] =
        (.ok [sampleRow.record, sampleRow.record], []) := by
  have hpath : directory <+: plainPath "./courses/A".toList := by decide +kernel
  have hlong : shortLength < Text.Utf8.size sampleSheet.text.toList := by decide +kernel
  exact ⟨hpath, hlong, ofFiles_written sampleSheet hpath hlong⟩

end Import

end CourseQuery
