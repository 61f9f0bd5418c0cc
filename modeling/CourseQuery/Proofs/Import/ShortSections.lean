import CourseQuery.Proofs.Import.Records
import CourseQuery.Proofs.Text.Split
import CourseQuery.Proofs.Text.Utf8

/-!
# How short a section with a row is

A row takes at least thirteen bytes, nine marks and a digit for each of its four numbers, and one
more for the end of the line before it. So a text below the documented header has room for a row
from 68 bytes on (`skipping_loses_nothing_iff`), which is less than the number of bytes up to which
a section is skipped.
-/

set_option autoImplicit false

namespace CourseQuery

open Text.Utf8 (size)

namespace Section

/-- The documented header of a section. -/
def header : List Char :=
  "title|uuid|instructor|audit|year|id|pass|fail|avg|dept".toList

/-! ## The size of a row -/

/-- Joined parts take their own bytes and those of the marks. -/
theorem size_intercalate (mark : Char) {parts : List (List Char)} (hne : parts ≠ []) :
    size (List.intercalate [mark] parts) + mark.utf8Size =
      (parts.map fun p => size p + mark.utf8Size).sum := by
  induction parts with
  | nil => contradiction
  | cons p parts ih =>
    by_cases hnil : parts = []
    · subst hnil
      simp [List.intercalate]
    · rw [Text.intercalate_cons p hnil, Text.Utf8.size_append, Text.Utf8.size_cons, List.map_cons,
        List.sum_cons, ← ih hnil]
      omega

/-- A text that is not empty takes a byte. -/
theorem size_pos_of_ne {s : String} (h : s ≠ "") : 1 ≤ size s.toList :=
  Text.Utf8.size_pos (mt String.toList_eq_nil_iff.1 h)

/-- A text that is read as a count is not empty. -/
theorem size_pos_of_readCount {field : Field} {raw : String} {x : Binary64}
    (h : readCount field raw = .ok x) : 1 ≤ size raw.toList := by
  refine size_pos_of_ne ?_
  rintro rfl
  exact nomatch h

/-- A text that is read as an average is not empty. -/
theorem size_pos_of_readAverage {raw : String} {x : Binary64} (h : readAverage raw = .ok x) :
    1 ≤ size raw.toList := by
  refine size_pos_of_ne ?_
  rintro rfl
  exact nomatch h

/-- A row has at least nine marks and four digits. -/
theorem le_size_of_readRow {line : String} {r : Record} (h : readRow line = .ok r) :
    13 ≤ size line.toList := by
  obtain ⟨hne, -, hjoined⟩ := Text.split_eq_iff.1 (rfl : Text.split '|' line.toList = _)
  obtain ⟨v, hcolumns, -⟩ := readColumns_eq_ok_iff.1 h
  have hsize := size_intercalate '|' hne
  have hmap : (Text.split '|' line.toList).map (fun p => size p + '|'.utf8Size) =
      ((Text.split '|' line.toList).map String.ofList).map fun s => size s.toList + 1 := by
    rw [List.map_map]
    exact List.map_congr_left fun p _ => by rw [Function.comp, String.toList_ofList]; rfl
  rw [hjoined, hmap, show '|'.utf8Size = 1 from rfl] at hsize
  generalize (Text.split '|' line.toList).map String.ofList = columns at hcolumns hsize
  obtain ⟨haudit, hpass, hfail, haverage⟩ := hcolumns
  have h₁ := size_pos_of_readCount haudit
  have h₂ := size_pos_of_readCount hpass
  have h₃ := size_pos_of_readCount hfail
  have h₄ := size_pos_of_readAverage haverage
  simp only [List.map_cons, List.sum_cons] at hsize
  omega

/-! ## The size of a section -/

/-- A line with a record has at least the size of a row. -/
theorem le_size_of_readLine {number : Nat} {line : List Char} {r : Record}
    (h : (readLine number line).record? = some r) : 13 ≤ size line := by
  unfold readLine at h
  dsimp only at h
  split at h
  · contradiction
  · split at h
    · rename_i hrow
      have hrow := le_size_of_readRow hrow
      rw [String.toList_ofList] at hrow
      refine hrow.trans ?_
      unfold withoutReturn
      split
      · rename_i hreturn
        obtain ⟨front, rfl⟩ := List.getLast?_eq_some_iff.1 hreturn
        rw [List.dropLast_concat, Text.Utf8.size_append]
        exact Nat.le_add_right _ _
      · exact Nat.le_refl _
    · contradiction

/-- Each record of some lines takes up the size of a row and a line end. -/
theorem records_le_size (number : Nat) (lines : List (List Char)) :
    14 * ((readLines number lines).filterMap Line.record?).length ≤
      (lines.map fun line => size line + 1).sum := by
  induction lines generalizing number with
  | nil => exact Nat.le_refl 0
  | cons line lines ih =>
    have hlines := ih (number + 1)
    rw [readLines, List.map_cons, List.sum_cons]
    cases hrow : (readLine number line).record? with
    | none =>
      rw [List.filterMap_cons_none hrow]
      omega
    | some r =>
      have hline := le_size_of_readLine hrow
      rw [List.filterMap_cons_some hrow, List.length_cons]
      omega

/-- The records of a section fit into it beside the header. -/
theorem records_le_size_of_header {text : String} (h : header <+: text.toList) :
    54 + 14 * ((lines text).filterMap Line.record?).length ≤ size text.toList := by
  obtain ⟨rest, hrest⟩ := h
  obtain ⟨first, more, hsplit⟩ := List.exists_cons_of_ne_nil (Text.split_ne_nil '\n' rest)
  obtain ⟨hne, -, hjoined⟩ := Text.split_eq_iff.1 hsplit
  have hlines : (Text.split '\n' text.toList).drop 1 = more := by
    rw [← hrest, Text.drop_one_split_append (by decide), hsplit, List.drop_one, List.tail_cons]
  have hrecords := records_le_size 2 more
  have hsize := size_intercalate '\n' hne
  rw [hjoined, List.map_cons, List.sum_cons, show '\n'.utf8Size = 1 from rfl] at hsize
  have hheader : size header = 54 := by decide
  rw [lines_eq_readLines, hlines, ← hrest, Text.Utf8.size_append, hheader]
  omega

/-! ## The shortest section with a row -/

/-- A section with the header and the shortest row. -/
def shortestSection : String :=
  String.ofList (header ++ "\n|||0|||0|0|0|".toList)

/-- The shortest section with a row holds one record. -/
theorem shortestSection_records :
    ((lines shortestSection).filterMap Line.record?).length = 1 := by
  decide +kernel

/-- Leaving out the sections of up to some number of bytes leaves out no row exactly as long as the
shortest section with a row, of 68 bytes, is not among them. -/
theorem skipping_loses_nothing_iff (bound : Nat) :
    (∀ text : String, header <+: text.toList → size text.toList ≤ bound →
      (lines text).filterMap Line.record? = []) ↔ bound < 68 := by
  have hheader : header <+: shortestSection.toList := by
    rw [shortestSection, String.toList_ofList]
    exact List.prefix_append _ _
  have hsize : size shortestSection.toList = 68 := by decide
  constructor
  · intro hlossless
    refine Nat.lt_of_not_le fun hbound => ?_
    have hnone := hlossless shortestSection hheader (by omega)
    have hrecords := shortestSection_records
    rw [hnone] at hrecords
    contradiction
  · intro hbound text htext hshort
    have hrecords := records_le_size_of_header htext
    exact List.eq_nil_of_length_eq_zero (by omega)

end Section

namespace Import

open Section (header shortestSection)

/-- A file that is too short is no section. -/
theorem section?_of_short (path : String) {text : String}
    (h : size text.toList ≤ shortLength) : section? ⟨path, Text.Utf8.encode text⟩ = none := by
  simp only [section?, Text.Utf8.decodeLossy_encode]
  exact if_neg fun hlong => Nat.not_lt.2 h hlong.2

/-- The shortest section with a row is skipped, and its row is lost. -/
theorem shortestSection_skipped :
    (∃ tail, shortestSection.toList = header ++ '\n' :: tail) ∧
      size shortestSection.toList ≤ shortLength ∧
      (Section.lines shortestSection).filterMap Section.Line.record? ≠ [] ∧
      (ofFiles [⟨"courses/A", Text.Utf8.encode shortestSection⟩]).1 = .error (.noRows 0) := by
  have hshort : size shortestSection.toList ≤ shortLength := by decide
  refine ⟨⟨_, String.toList_ofList⟩, hshort, fun hnone => ?_, ?_⟩
  · have hrecords := Section.shortestSection_records
    rw [hnone] at hrecords
    contradiction
  · rw [ofFiles, List.filterMap_cons, section?_of_short _ hshort]
    rfl

end Import

end CourseQuery
