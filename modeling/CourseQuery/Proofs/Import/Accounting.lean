import CourseQuery.Proofs.Dataset.Logged
import CourseQuery.Proofs.Import.Records
import CourseQuery.Proofs.Text.Split

/-!
# Every line is accounted for

Of the files of an archive those below `courses/` with a text that is long enough are sections, and
the lines of a section behind its header are data (`DataLines`). Each of these lines is blank, or it
is a row and gives one record, or it is warned of in one line of the log; there are no other records
and no other warnings, and both are in the order of the lines (`Accounts`). So an import neither
loses nor invents a row.
-/

set_option autoImplicit false

namespace CourseQuery

open Text (isBlank)
open Trace (Logger Severity)

namespace Import

open Section (RowFault)

/-! ## The lines that count -/

/-- A file is a section, known by its path without the `./` in front. -/
structure IsSection (e : Archive.Entry) (s : NamedSection) : Prop where
  path : ∃ n, e.path.toList = (List.replicate n ['.', '/']).flatten ++ s.path.toList
  plain : ¬ ['.', '/'] <+: s.path.toList
  inside : directory <+: s.path.toList
  text : s.text = Text.Utf8.decodeLossy e.content
  long : shortLength < Text.Utf8.size s.text.toList

/-- A line of a section behind its header, without a carriage return at its end. -/
structure Place where
  path : String
  /-- The number of the line in its file, the header being line 1. -/
  number : Nat
  line : List Char
deriving DecidableEq, Repr

/-- Lines of a section in order, the first of which has the given number. -/
inductive Places (path : String) : (number : Nat) → List (List Char) → List Place → Prop
  | nil {number : Nat} : Places path number [] []
  | plain {number : Nat} {line : List Char} {lines : List (List Char)} {places : List Place} :
      line.getLast? ≠ some '\r' → Places path (number + 1) lines places →
      Places path number (line :: lines) (⟨path, number, line⟩ :: places)
  | return {number : Nat} {line : List Char} {lines : List (List Char)} {places : List Place} :
      Places path (number + 1) lines places →
      Places path number ((line ++ ['\r']) :: lines) (⟨path, number, line⟩ :: places)

/-- The lines of the sections among files, in the order of the files. -/
inductive DataLines : List Archive.Entry → List Place → Prop
  | nil : DataLines [] []
  | other {e : Archive.Entry} {files : List Archive.Entry} {places : List Place} :
      (∀ s, ¬ IsSection e s) → DataLines files places → DataLines (e :: files) places
  | within {e : Archive.Entry} {files : List Archive.Entry} {s : NamedSection}
      {header : List Char} {lines : List (List Char)} {here places : List Place} :
      IsSection e s → List.intercalate ['\n'] (header :: lines) = s.text.toList →
      (∀ line ∈ header :: lines, '\n' ∉ line) → Places s.path 2 lines here →
      DataLines files places → DataLines (e :: files) (here ++ places)

/-! ## What becomes of them -/

/-- A line of the log warns of a place. It is one line, and read as an object it tells what is
wrong, the number of the line and the path of the section. -/
structure Warns (p : Place) (fault : RowFault) (warning : String) : Prop where
  line : ∀ c ∈ warning.toList, Trace.Entry.isControl c = false
  members : Json.parse? warning = some (.object
    [("event", .string "IMPORT_ROW_SKIPPED"), ("severity", .string "WARN"),
      ("line", .string (toString p.number)), ("reason", .string fault.message),
      ("section", .string p.path)])

/-- Places are accounted for by records and warnings: each place by nothing if it is blank, by one
record if it is a row, and by one warning otherwise, in order. -/
inductive Accounts : List Place → List Record → List String → Prop
  | nil : Accounts [] [] []
  | blank {p : Place} {places : List Place} {records : List Record} {warnings : List String} :
      (∀ c ∈ p.line, isBlank c = true) → Accounts places records warnings →
      Accounts (p :: places) records warnings
  | row {p : Place} {places : List Place} {r : Record} {records : List Record}
      {warnings : List String} :
      (∃ c ∈ p.line, isBlank c = false) → Section.readRow (String.ofList p.line) = .ok r →
      Accounts places records warnings → Accounts (p :: places) (r :: records) warnings
  | warning {p : Place} {places : List Place} {records : List Record} {fault : RowFault}
      {w : String} {warnings : List String} :
      (∃ c ∈ p.line, isBlank c = false) → Section.readRow (String.ofList p.line) = .error fault →
      Warns p fault w → Accounts places records warnings →
      Accounts (p :: places) records (w :: warnings)

/-- Accounts of places one behind the other make an account of all. -/
theorem Accounts.append {places more : List Place} {records records' : List Record}
    {warnings warnings' : List String} (h : Accounts places records warnings)
    (h' : Accounts more records' warnings') :
    Accounts (places ++ more) (records ++ records') (warnings ++ warnings') := by
  induction h with
  | nil => exact h'
  | blank hblank _ ih => exact .blank hblank ih
  | row hfull hrow _ ih => exact .row hfull hrow ih
  | warning hfull hrow hwarns _ ih => exact .warning hfull hrow hwarns ih

/-- A record of a row: it keeps to the schema, and of its numbers, which are finite, the counts are
integers. -/
structure Imported (r : Record) : Prop where
  schema : r.defect? = none
  finite : ∀ f, f.kind = .number → ∃ x, r.cell f = some (.number x) ∧ x.isFinite = true
  whole : ∀ f ∈ [Field.pass, .fail, .audit], ∃ x i, r.cell f = some (.number x) ∧ x.toInt? = some i

/-- A row that is read is imported. -/
theorem imported_of_readRow {line : String} {r : Record} (h : Section.readRow line = .ok r) :
    Imported r := by
  obtain ⟨v, hcolumns, rfl⟩ := Section.readColumns_eq_ok_iff.1 h
  refine ⟨Record.defect?_eq_none_iff.2 v.record_complete, fun f hf => ?_, hcolumns.whole⟩
  obtain ⟨x, hx⟩ := v.record_complete.number hf
  exact ⟨x, hx, hcolumns.finite f x hx⟩

/-- Every record of an account is imported. -/
theorem Accounts.imported {places : List Place} {records : List Record} {warnings : List String}
    (h : Accounts places records warnings) : ∀ r ∈ records, Imported r := by
  induction h with
  | nil => exact nofun
  | blank _ _ ih => exact ih
  | row _ hrow _ ih => exact List.forall_mem_cons.2 ⟨imported_of_readRow hrow, ih⟩
  | warning _ _ _ _ ih => exact ih

/-! ## Sections -/

/-- A path is the plain one behind all the `./` that it begins with. -/
theorem plainPath_eq_iff {path plain : List Char} :
    plainPath path = plain ↔
      (∃ n, path = (List.replicate n ['.', '/']).flatten ++ plain) ∧ ¬ ['.', '/'] <+: plain := by
  constructor
  · rintro rfl
    fun_induction plainPath path with
    | case1 rest ih =>
      obtain ⟨⟨n, hn⟩, hplain⟩ := ih
      refine ⟨⟨n + 1, ?_⟩, hplain⟩
      rw [List.replicate_succ, List.flatten_cons, List.append_assoc, ← hn]
      rfl
    | case2 path hpath =>
      refine ⟨⟨0, rfl⟩, ?_⟩
      rintro ⟨rest, rfl⟩
      exact hpath rest rfl
  · rintro ⟨⟨n, rfl⟩, hplain⟩
    induction n with
    | zero =>
      rw [List.replicate_zero, List.flatten_nil, List.nil_append]
      unfold plainPath
      split
      · rename_i rest
        exact absurd ⟨rest, rfl⟩ hplain
      · rfl
    | succ n ih =>
      rw [List.replicate_succ, List.flatten_cons, List.append_assoc]
      exact ih

/-- An entry is read as a section if it is one. -/
theorem section?_eq_some_iff {e : Archive.Entry} {s : NamedSection} : section? e = some s ↔
    IsSection e s := by
  obtain ⟨path, text⟩ := s
  rw [section?, Option.ite_none_right_eq_some, List.isPrefixOf_iff_prefix]
  constructor
  · rintro ⟨⟨hinside, hlong⟩, hs⟩
    injection hs with hs
    injection hs with hpath htext
    subst hpath htext
    obtain ⟨hfront, hplain⟩ := plainPath_eq_iff.1 rfl
    exact ⟨by rwa [String.toList_ofList], by rwa [String.toList_ofList],
      by rwa [String.toList_ofList], rfl, hlong⟩
  · rintro ⟨hfront, hplain, hinside, rfl, hlong⟩
    have hpath := plainPath_eq_iff.2 ⟨hfront, hplain⟩
    rw [hpath]
    exact ⟨⟨hinside, hlong⟩, by rw [String.ofList_toList]⟩

/-- A line is a place without the carriage return that it may end with. -/
theorem Places.cons {path : String} {number : Nat} {lines : List (List Char)} {places : List Place}
    (line : List Char) (h : Places path (number + 1) lines places) :
    Places path number (line :: lines)
      (⟨path, number, Section.withoutReturn line⟩ :: places) := by
  unfold Section.withoutReturn
  split
  · rename_i hreturn
    obtain ⟨front, rfl⟩ := List.getLast?_eq_some_iff.1 hreturn
    rw [List.dropLast_concat]
    exact .return h
  · rename_i hplain
    exact .plain hplain h

/-- The line of the entry of a skipped line warns of it. -/
theorem warns_skippedEntry (path : String) (number : Nat) (line : List Char) (fault : RowFault) :
    Warns ⟨path, number, line⟩ fault ((skippedEntry path number fault).line 0) := by
  refine ⟨Trace.Entry.isControl_line 0 _, ?_⟩
  have hsorted : [("line", toString number), ("reason", fault.message), ("section", path)].Pairwise
      fun a b => decide (a.1 ≤ b.1) = true := by
    have hreason : "line" ≤ "reason" := by decide
    have hsection : "line" ≤ "section" := by decide
    have hlast : "reason" ≤ "section" := by decide
    simp [hreason, hsection, hlast]
  have hfields : [("line", toString number), ("reason", fault.message), ("section", path)].mergeSort
      (fun a b => decide (a.1 ≤ b.1)) =
        [("line", toString number), ("reason", fault.message), ("section", path)] :=
    List.mergeSort_of_pairwise hsorted
  have hmembers : (skippedEntry path number fault).members 0 =
      [("event", "IMPORT_ROW_SKIPPED"), ("severity", "WARN"), ("line", toString number),
        ("reason", fault.message), ("section", path)] :=
    congrArg (("event", "IMPORT_ROW_SKIPPED") :: ("severity", "WARN") :: ·) hfields
  rw [Trace.parse?_line, hmembers]
  rfl

/-- What a line is read as is settled by its text without the carriage return. -/
theorem readLine_cases (number : Nat) (line : List Char) :
    (∀ c ∈ Section.withoutReturn line, isBlank c = true) ∧
        Section.readLine number line = .blank ∨
      (∃ c ∈ Section.withoutReturn line, isBlank c = false) ∧
        ((∃ r, Section.readRow (String.ofList (Section.withoutReturn line)) = .ok r ∧
            Section.readLine number line = .row r) ∨
          ∃ fault, Section.readRow (String.ofList (Section.withoutReturn line)) = .error fault ∧
            Section.readLine number line = .skipped number fault) := by
  unfold Section.readLine
  dsimp only
  split
  · rename_i hblank
    exact .inl ⟨List.all_eq_true.1 hblank, rfl⟩
  · rename_i hfull
    refine .inr ⟨by simpa using hfull, ?_⟩
    cases Section.readRow (String.ofList (Section.withoutReturn line)) with
    | ok r => exact .inl ⟨r, rfl, rfl⟩
    | error fault => exact .inr ⟨fault, rfl, rfl⟩

/-- The warnings of lines that were read. -/
def warningsOf (path : String) (lines : List Section.Line) : List String :=
  (lines.filterMap fun line => line.skipped?.map fun (number, fault) =>
    skippedEntry path number fault).map (Trace.Entry.line 0)

/-- Lines of a section are accounted for by the records and the warnings that they give. -/
theorem exists_accounts_lines (path : String) (number : Nat) (lines : List (List Char)) :
    ∃ places, Places path number lines places ∧
      Accounts places ((Section.readLines number lines).filterMap Section.Line.record?)
        (warningsOf path (Section.readLines number lines)) := by
  induction lines generalizing number with
  | nil => exact ⟨[], .nil, .nil⟩
  | cons line lines ih =>
    obtain ⟨places, hplaces, haccounts⟩ := ih (number + 1)
    refine ⟨_, hplaces.cons line, ?_⟩
    rw [Section.readLines]
    obtain ⟨hblank, hread⟩ | ⟨hfull, ⟨r, hrow, hread⟩ | ⟨fault, hrow, hread⟩⟩ :=
      readLine_cases number line
    · rw [hread]
      exact .blank hblank haccounts
    · rw [hread]
      exact .row hfull hrow haccounts
    · rw [hread]
      exact .warning hfull hrow (warns_skippedEntry path number _ fault) haccounts

/-- The data of files is accounted for by the records and the warnings of their sections. -/
theorem exists_accounts_files (files : List Archive.Entry) :
    ∃ places, DataLines files places ∧
      Accounts places (records (files.filterMap section?))
        ((skipped (files.filterMap section?)).map (Trace.Entry.line 0)) := by
  induction files with
  | nil => exact ⟨[], .nil, .nil⟩
  | cons e files ih =>
    obtain ⟨places, hdata, haccounts⟩ := ih
    cases hsection : section? e with
    | none =>
      refine ⟨places, .other (fun s hs => ?_) hdata, by rwa [List.filterMap_cons, hsection]⟩
      rw [section?_eq_some_iff.2 hs] at hsection
      contradiction
    | some s =>
      obtain ⟨header, lines, hsplit⟩ := List.exists_cons_of_ne_nil
        (Text.split_ne_nil '\n' s.text.toList)
      obtain ⟨-, hwhole, hjoined⟩ := Text.split_eq_iff.1 hsplit
      obtain ⟨here, hplaces, hhere⟩ := exists_accounts_lines s.path 2 lines
      have hlines : Section.lines s.text = Section.readLines 2 lines := by
        rw [Section.lines_eq_readLines, hsplit, List.drop_one, List.tail_cons]
      rw [← hlines] at hhere
      refine ⟨here ++ places,
        .within (section?_eq_some_iff.1 hsection) hjoined hwhole hplaces hdata, ?_⟩
      rw [List.filterMap_cons, hsection]
      have hall := hhere.append haccounts
      rwa [warningsOf, ← List.map_append] at hall

/-- Whatever is traced of sections is the skipping of a line. -/
theorem mem_skipped {sections : List NamedSection} {e : Trace.Entry} (h : e ∈ skipped sections) :
    ∃ path number fault, e = skippedEntry path number fault := by
  obtain ⟨s, -, he⟩ := List.mem_flatMap.1 h
  obtain ⟨line, -, hline⟩ := List.mem_filterMap.1 he
  obtain ⟨⟨number, fault⟩, -, rfl⟩ := Option.map_eq_some_iff.1 hline
  exact ⟨s.path, number, fault, rfl⟩

/-! ## Imports -/

/-- An import of an archive whose files can be read, logged with a threshold that lets warnings
through, accounts for every line of every section behind its header by nothing if it is blank, by
one record or by one warning, in order, and has no other records and writes no other lines. Its
records, which are valid, are its result unless there are none, and then it fails. -/
theorem lines_accounted {archive : Bytes} {fs : List Archive.Entry}
    (hfiles : files archive = .ok fs) {l : Logger}
    (hthreshold : l.threshold.rank ≤ Severity.warn.rank) :
    ∃ places records warnings, DataLines fs places ∧ Accounts places records warnings ∧
      (∀ r ∈ records, Imported r) ∧
      ((logArchive archive .courses).run l).run.2.written = l.written ++ warnings ∧
      (records ≠ [] → ((logArchive archive .courses).run l).run.1 = .ok records) ∧
      (records = [] → ∃ n, ((logArchive archive .courses).run l).run.1 = .error (.noRows n)) := by
  obtain ⟨places, hdata, haccounts⟩ := exists_accounts_files fs
  have himport : ofArchive archive .courses = ofFiles fs := by
    rw [ofArchive, if_pos rfl, hfiles]
  have hentries : ∀ e ∈ skipped (fs.filterMap section?),
      e.timed = false ∧ l.threshold.enabled e.severity = true := by
    intro e he
    obtain ⟨path, number, fault, rfl⟩ := mem_skipped he
    exact ⟨rfl, decide_eq_true hthreshold⟩
  have hwritten := Logger.written_record_of_untimed (fun e he => (hentries e he).1)
    (fun e he => (hentries e he).2)
  rw [logs_logArchive archive .courses l, himport]
  refine ⟨places, _, _, hdata, haccounts, haccounts.imported, hwritten,
    fun hne => ?_, fun hnil => ?_⟩
  · rw [ofFiles]
    exact if_neg (by simpa using hne)
  · refine ⟨(fs.filterMap section?).length, ?_⟩
    rw [ofFiles]
    exact if_pos (by simpa using hnil)

/-- Files of which one is a section, with a row, a blank line and a row that has a fault. -/
def mixedFiles : List Archive.Entry :=
  [⟨"readme.txt", Text.Utf8.encode "no section"⟩, ⟨"courses/B", Text.Utf8.encode "short"⟩,
    ⟨"././courses/A", Text.Utf8.encode ("title\nintro to the theory of courses|1|lee, kim|0|" ++
      "2015|110|9|8|78.5|cpsc\x0d\n \nlate|2|x|0")⟩]

set_option maxRecDepth 10000 in
/-- Every line of an archive with good and bad lines is accounted for. -/
theorem lines_accounted_mixedFiles :
    files (Zip.writeStored mixedFiles) = .ok mixedFiles ∧
      (Logger.start .info fun _ => 0).threshold.rank ≤ Severity.warn.rank ∧
      ∃ places records warnings, DataLines mixedFiles places ∧ Accounts places records warnings ∧
        ((logArchive (Zip.writeStored mixedFiles) .courses).run
          (.start .info fun _ => 0)).run.2.written = [] ++ warnings := by
  have hfiles : files (Zip.writeStored mixedFiles) = .ok mixedFiles :=
    eq_ok_of_toOption (by decide +kernel)
  have hthreshold : (Logger.start .info fun _ => 0).threshold.rank ≤ Severity.warn.rank := by decide
  obtain ⟨places, records, warnings, hdata, haccounts, -, hwritten, -⟩ :=
    lines_accounted hfiles hthreshold
  exact ⟨hfiles, hthreshold, places, records, warnings, hdata, haccounts, hwritten⟩

end Import

end CourseQuery
