import CourseQuery.Proofs.Json.ReadsBack
import CourseQuery.Trace.Entry

/-!
# Reading the line of an entry

The line of an entry is read as an object of strings, member by member as it was written, so the
severity of an entry can be told from its line. It is one line: no control character stands in it.
Only the time that the work took, where the entry is timed, is not given by the entry.
-/

set_option autoImplicit false

namespace CourseQuery.Trace

open Json (SpellsChar Quotes)

/-! ## Strings -/

/-- A character is spelled by its escape in a trace. -/
theorem spellsChar_escapeChar (c : Char) : SpellsChar (Entry.escapeChar c) c := by
  by_cases hquote : c = '"'
  · subst hquote
    exact Json.spellsChar_pair (by decide)
  by_cases hbackslash : c = '\\'
  · subst hbackslash
    exact Json.spellsChar_pair (by decide)
  by_cases hline : c = '\n'
  · subst hline
    exact Json.spellsChar_pair (by decide)
  by_cases hreturn : c = '\r'
  · subst hreturn
    exact Json.spellsChar_pair (by decide)
  by_cases htab : c = '\t'
  · subst htab
    exact Json.spellsChar_pair (by decide)
  simp only [Entry.escapeChar, hquote, hbackslash, hline, hreturn, htab, if_false]
  by_cases hcontrol : Entry.isControl c = true
  · rw [if_pos hcontrol]
    have hbelow : c.toNat < 0xD800 := by
      simp only [Entry.isControl, Bool.or_eq_true, Bool.and_eq_true, decide_eq_true_eq] at hcontrol
      omega
    exact Json.spellsChar_unicodeEscape hbelow
  · rw [if_neg hcontrol]
    refine Or.inl ⟨rfl, hquote, hbackslash, fun hlow => hcontrol ?_⟩
    simp [Entry.isControl, hlow]

/-- A text is quoted as it is written in a trace. -/
theorem quotes_quoted (s : String) : Quotes (Entry.quoted s) s :=
  Json.quotes_flatMap spellsChar_escapeChar s

/-! ## Lines -/

/-- The text of the members of a line. -/
def textOfMembers (ms : List (String × String)) : List Char :=
  List.intercalate [','] (ms.map fun (key, value) => Entry.quoted key ++ ':' :: Entry.quoted value)

/-- A single member is written without a comma. -/
theorem textOfMembers_singleton (key value : String) :
    textOfMembers [(key, value)] = Entry.quoted key ++ ':' :: Entry.quoted value := by
  simp [textOfMembers, List.intercalate]

/-- A member in front of others is written with a comma behind it. -/
theorem textOfMembers_cons (key value : String) {ms : List (String × String)} (hne : ms ≠ []) :
    textOfMembers ((key, value) :: ms) =
      Entry.quoted key ++ ':' :: (Entry.quoted value ++ ',' :: textOfMembers ms) := by
  cases ms with
  | nil => contradiction
  | cons m ms => simp [textOfMembers, List.intercalate]

/-- The members of a line are read up to the closing brace. -/
theorem members_textOfMembers {skim : Bool} {skimValue : String → Bool}
    {ms : List (String × String)} (hne : ms ≠ []) {fuel : Nat} (hfuel : ms.length ≤ fuel)
    (rest : List Char) :
    Json.members skim skimValue (fuel + 1) (textOfMembers ms ++ '\x7d' :: rest) =
      some (ms.map fun (key, value) => (key, .string value), rest) := by
  induction ms generalizing fuel with
  | nil => contradiction
  | cons m ms ih =>
    obtain ⟨key, value⟩ := m
    rw [List.length_cons] at hfuel
    obtain ⟨fuel, rfl⟩ : ∃ n, fuel = n + 1 := ⟨fuel - 1, by omega⟩
    have hvalue : ∀ behind, Json.value (skimValue key) (fuel + 1) (Entry.quoted value ++ behind) =
        some (.string value, behind) := (quotes_quoted value).value
    by_cases hnil : ms = []
    · subst hnil
      rw [textOfMembers_singleton, List.append_assoc, List.cons_append]
      exact Json.members_last (quotes_quoted key) ((quotes_quoted key).skipSpace _) (hvalue _)
        (Json.skipSpace_cons (by decide) rest)
    · rw [textOfMembers_cons key value hnil]
      simp only [List.append_assoc, List.cons_append]
      exact Json.members_next (quotes_quoted key) ((quotes_quoted key).skipSpace _) (hvalue _)
        (Json.skipSpace_cons (by decide) _) (ih hnil (by omega))

/-- There are no more members than characters in their text. -/
theorem length_le_textOfMembers (ms : List (String × String)) :
    ms.length ≤ (textOfMembers ms).length := by
  induction ms with
  | nil => exact Nat.zero_le _
  | cons m ms ih =>
    obtain ⟨key, value⟩ := m
    by_cases hnil : ms = []
    · subst hnil
      simp only [textOfMembers_singleton, List.length_append, List.length_cons, List.length_nil]
      omega
    · rw [textOfMembers_cons key value hnil]
      simp only [List.length_append, List.length_cons]
      omega

/-- A line is its members between braces. -/
theorem toList_line (elapsed : Nat) (e : Entry) :
    (e.line elapsed).toList = '\x7b' :: (textOfMembers (e.members elapsed) ++ ['\x7d']) :=
  String.toList_ofList

/-! ## Control characters -/

namespace Entry

/-- No hexadecimal digit is a control character. -/
theorem isControl_hexDigit : ∀ d < 16, isControl (hexDigit d) = false := by decide

/-- A character is escaped without control characters. -/
theorem isControl_escapeChar (c : Char) : ∀ d ∈ escapeChar c, isControl d = false := by
  have hnibble : ∀ n, isControl (hexDigit (n % 16)) = false := fun n =>
    isControl_hexDigit _ (Nat.mod_lt _ (by decide))
  unfold escapeChar
  iterate 5
    split
    · simp only [List.forall_mem_cons, List.not_mem_nil, false_implies, implies_true, and_true]
      decide
  split
  · have hbackslash : isControl '\\' = false := by decide
    have hu : isControl 'u' = false := by decide
    simp [unicodeEscape, hnibble, hbackslash, hu]
  · rename_i hcontrol
    simpa using hcontrol

/-- A quoted text holds no control character. -/
theorem isControl_quoted (s : String) : ∀ c ∈ quoted s, isControl c = false := by
  intro c hc
  simp only [quoted, List.cons_append, List.mem_cons, List.mem_append, List.mem_flatMap,
    List.not_mem_nil, or_false] at hc
  rcases hc with rfl | ⟨d, -, hd⟩ | rfl
  · rfl
  · exact isControl_escapeChar d c hd
  · rfl

/-- The text of members holds no control character. -/
theorem isControl_textOfMembers (ms : List (String × String)) :
    ∀ c ∈ textOfMembers ms, isControl c = false := by
  have hmember : ∀ key value : String, ∀ c ∈ quoted key ++ ':' :: quoted value,
      isControl c = false := by
    intro key value c hc
    rw [List.mem_append, List.mem_cons] at hc
    rcases hc with hc | rfl | hc
    · exact isControl_quoted key c hc
    · rfl
    · exact isControl_quoted value c hc
  induction ms with
  | nil => simp [textOfMembers, List.intercalate]
  | cons m ms ih =>
    obtain ⟨key, value⟩ := m
    by_cases hnil : ms = []
    · subst hnil
      rw [textOfMembers_singleton]
      exact hmember key value
    · intro c hc
      rw [textOfMembers_cons key value hnil, ← List.cons_append, ← List.append_assoc,
        List.mem_append, List.mem_cons] at hc
      rcases hc with hc | rfl | hc
      · exact hmember key value c hc
      · rfl
      · exact ih c hc

/-- No entry breaks its line. -/
theorem isControl_line (elapsed : Nat) (e : Entry) :
    ∀ c ∈ (e.line elapsed).toList, isControl c = false := by
  intro c hc
  rw [toList_line, List.mem_cons, List.mem_append, List.mem_singleton] at hc
  rcases hc with rfl | hc | rfl
  · rfl
  · exact isControl_textOfMembers _ c hc
  · rfl

end Entry

/-- What takes no time has one line. -/
theorem Entry.line_of_untimed {e : Entry} (h : e.timed = false) (elapsed elapsed' : Nat) :
    e.line elapsed = e.line elapsed' := by
  simp [line, members, timedFields, h]

/-! ## Reading a line -/

/-- Members in braces are read as an object of strings, with what follows them. -/
theorem parseFront?_of_members {text : String} {ms : List (String × String)} {rest : List Char}
    (hne : ms ≠ []) (htext : text.toList = '\x7b' :: (textOfMembers ms ++ '\x7d' :: rest)) :
    Json.parseFront? text =
      some (.object (ms.map fun (key, value) => (key, .string value)), rest) := by
  have hlength := length_le_textOfMembers ms
  rw [Json.parseFront?, htext, List.length_cons, List.length_append]
  exact Json.value_of_members (members_textOfMembers hne (Nat.le_add_right_of_le hlength) rest)

/-- The line of an entry is read as the object of its members. -/
theorem parse?_line (elapsed : Nat) (e : Entry) :
    Json.parse? (e.line elapsed) =
      some (.object ((e.members elapsed).map fun (key, value) => (key, .string value))) := by
  rw [Json.parse?, parseFront?_of_members (List.cons_ne_nil _ _) (toList_line elapsed e)]
  rfl

/-- The severity that a name in a line names. -/
def Severity.ofName? (s : String) : Option Severity :=
  all.find? fun severity => severity.name = s

/-- The severity of a line, which is its first member of that name. -/
def severityOf? (line : String) : Option Severity :=
  match Json.parse? line with
  | some (.object members) =>
    ((Json.valuesOf "severity" members).head?.bind Json.string?).bind Severity.ofName?
  | _ => none

/-- A severity is found under its name. -/
theorem Severity.ofName?_name (severity : Severity) : ofName? severity.name = some severity := by
  cases severity <;> decide

/-- A line tells the severity of its entry. -/
theorem severityOf?_line (elapsed : Nat) (e : Entry) :
    severityOf? (e.line elapsed) = some e.severity := by
  rw [severityOf?, parse?_line]
  simp only [Entry.members, List.map_cons, Json.valuesOf]
  simp [Json.string?, Severity.ofName?_name]

end CourseQuery.Trace
