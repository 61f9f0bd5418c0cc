import CourseQuery.Proofs.Filter.Groups
import CourseQuery.Proofs.Sentence.Reading
import CourseQuery.Sentence.Writer
import Mathlib.Data.List.Forall2

/-!
# Written sentences are read back

A sentence that is written is laid out by the grammar: each part of it spells lexemes, one space
apart, and these lexemes stand in the relation of the grammar to the part of the query that was
written. Since the reader accepts the grammar, nothing has to be known here about tokens, quotes or
the end of a literal; what the writer escapes is the body of a literal by definition.
-/

set_option autoImplicit false

namespace CourseQuery.Sentence

open Text (isBlank split splitFrom)

/-! ## Lexemes one space apart -/

/-- A text is at least one lexeme, the lexemes one space apart. -/
inductive Spells : List Char → List (List Char) → Prop
  | one (lexeme : List Char) : Spells lexeme [lexeme]
  | cons (lexeme : List Char) {s : List Char} {lexemes : List (List Char)} :
    Spells s lexemes → Spells (lexeme ++ ' ' :: s) (lexeme :: lexemes)

section

variable {s t : List Char} {ls ms : List (List Char)}

/-- Two texts with a space between spell the words of the one and the other. -/
theorem Spells.append (hs : Spells s ls) (ht : Spells t ms) :
    Spells (s ++ ' ' :: t) (ls ++ ms) := by
  induction hs with
  | one lexeme => exact .cons lexeme ht
  | cons lexeme _ ih =>
    rw [List.append_assoc, List.cons_append, List.cons_append]
    exact .cons lexeme ih

/-- The words that a text spells stand in it, also behind blanks. -/
theorem Spells.takes (h : Spells s ls) {gap : List Char} (hgap : Gap gap) :
    Takes ls (gap ++ s) [] := by
  induction h generalizing gap with
  | one lexeme =>
    have htakes : Takes [lexeme] (gap ++ (lexeme ++ [])) [] :=
      .cons hgap boundary_nil (.nil [])
    rwa [List.append_nil] at htakes
  | cons lexeme _ ih =>
    have hblank : isBlank ' ' = true := by decide
    exact .cons hgap (boundary_cons.2 hblank) (ih (gap_cons.2 ⟨hblank, gap_nil⟩))

/-- The words that a text spells are laid out in it. -/
theorem Spells.laidOut (h : Spells s ls) : LaidOut ls s :=
  ⟨[], h.takes gap_nil, gap_nil⟩

/-- A mark behind a text closes its last lexeme. -/
theorem Spells.closed (h : Spells s ls) :
    ∃ closed, Closed ls closed ∧ Spells (s ++ [';']) closed := by
  induction h with
  | one lexeme => exact ⟨_, .attached [] lexeme, .one _⟩
  | @cons lexeme s ls _ ih =>
    obtain ⟨closed, hclosed, hspells⟩ := ih
    refine ⟨lexeme :: closed, ?_, ?_⟩
    · cases hclosed with
      | alone => exact .alone (lexeme :: ls)
      | attached front last => exact .attached (lexeme :: front) last
    · rw [List.append_assoc]
      exact .cons lexeme hspells

/-- A text spells the words that it is split into at its spaces. -/
theorem spells_splitFrom (part s : List Char) :
    Spells (part.reverse ++ s) (splitFrom ' ' part s) := by
  induction s generalizing part with
  | nil =>
    rw [List.append_nil]
    exact .one _
  | cons c s ih =>
    rw [splitFrom]
    split
    · rename_i hc
      rw [hc]
      exact .cons part.reverse (ih [])
    · have hpart := ih (c :: part)
      rwa [List.reverse_cons, List.append_assoc] at hpart

/-- A phrase spells its words. -/
theorem spells_wordsOf (phrase : String) : Spells phrase.toList (wordsOf phrase) :=
  spells_splitFrom [] phrase.toList

end

/-! ## Predicates -/

/-- An atom writes a predicate: the predicate fits its field, the numeral of the atom denotes its
bound, and its text holds no `*`. -/
structure Atom.Writes (a : Atom) (p : Predicate) : Prop where
  predicate : a.predicate? = some p
  wellTyped : p.wellTyped = true
  noStar : ∀ relation negated literal, p.condition = .text relation negated literal →
    '*' ∉ literal.toList

/-- A text without stars is spelled by its escape. -/
theorem body_escape {text : List Char} (h : '*' ∉ text) : Body (Literal.escape text) text := by
  induction text with
  | nil => exact .nil
  | cons c text ih =>
    rw [List.mem_cons, not_or] at h
    have hbody := ih h.2
    change Body (Literal.escapeChar c ++ Literal.escape text) (c :: text)
    unfold Literal.escapeChar
    split
    · rename_i hc
      exact .escaped hc hbody
    · rename_i hc
      rw [not_or] at hc
      exact .plain hc.1 hc.2 (Ne.symm h.1) hbody

/-- What an atom writes states its predicate. -/
theorem Atom.Writes.states {a : Atom} {p : Predicate} (h : a.Writes p) :
    ∃ ls, States p ls ∧ Spells a.write.toList ls := by
  obtain ⟨hpredicate, htyped, hstar⟩ := h
  have hkind := of_decide_eq_true htyped
  cases a with
  | number field relation negated numeral =>
    obtain ⟨x, hx, rfl⟩ := Option.map_eq_some_iff.1 hpredicate
    have hplain : Numeral.Plain numeral.toList x := by
      rw [← Numeral.ofPlain?_eq_some_iff, String.ofList_toList]
      exact hx
    have hcomparison := Comparison.number relation negated hplain
    change CellKind.number = field.kind at hkind
    rw [hkind] at hcomparison
    refine ⟨_, .mk field hcomparison, ?_⟩
    have hspells := (Spells.one field.name.toList).append
      ((spells_wordsOf (relation.phrase negated)).append (.one numeral.toList))
    simpa [write] using hspells
  | text field relation negated literal =>
    obtain rfl := Option.some.inj hpredicate
    have hbody := body_escape (hstar relation negated literal rfl)
    have hcomparison := Comparison.text relation negated hbody
    change CellKind.text = field.kind at hkind
    rw [hkind, String.ofList_toList] at hcomparison
    refine ⟨_, .mk field hcomparison, ?_⟩
    have hspells := (Spells.one field.name.toList).append
      ((spells_wordsOf (relation.phrase negated)).append
        (.one (quoted (Literal.escape literal.toList))))
    simpa [write, quoted] using hspells

/-! ## Groups -/

/-- The text of a group. -/
def writeGroup (group : List Atom) : String :=
  String.intercalate " and " (group.map Atom.write)

/-- The text of groups. -/
def writeGroups (groups : List (List Atom)) : String :=
  String.intercalate " or " (groups.map writeGroup)

/-- An atom in front of others in its group is written with `and` behind it. -/
theorem writeGroup_cons (a b : Atom) (group : List Atom) :
    (writeGroup (a :: b :: group)).toList =
      a.write.toList ++ ' ' :: ("and".toList ++ ' ' :: (writeGroup (b :: group)).toList) := by
  simp [writeGroup]

/-- A group in front of others is written with `or` behind it. -/
theorem writeGroups_cons (group next : List Atom) (groups : List (List Atom)) :
    (writeGroups (group :: next :: groups)).toList =
      (writeGroup group).toList ++ ' ' ::
        ("or".toList ++ ' ' :: (writeGroups (next :: groups)).toList) := by
  simp [writeGroups]

/-- A group at the end of the conditions. -/
theorem conditions_writeGroup {a : Atom} {p : Predicate} {group : List Atom}
    {ps : List Predicate} (ha : a.Writes p) (hgroup : List.Forall₂ Atom.Writes group ps) :
    ∃ ls, Conditions [p :: ps] ls ∧ Spells (writeGroup (a :: group)).toList ls := by
  obtain ⟨ls, hstates, hspells⟩ := ha.states
  induction hgroup generalizing a p ls with
  | nil =>
    refine ⟨ls, .atom hstates, ?_⟩
    simpa [writeGroup] using hspells
  | @cons b q group ps hb _ ih =>
    obtain ⟨ms, hstates', hspells'⟩ := hb.states
    obtain ⟨more, hconditions, hmore⟩ := ih hb ms hstates' hspells'
    refine ⟨_, .and hstates hconditions, ?_⟩
    rw [writeGroup_cons]
    exact hspells.append ((Spells.one _).append hmore)

/-- A group with other groups after it. -/
theorem conditions_writeGroup_or {a : Atom} {p : Predicate} {group : List Atom}
    {ps : List Predicate} (ha : a.Writes p) (hgroup : List.Forall₂ Atom.Writes group ps)
    {stated : List (List Predicate)} {t : List Char} {ms : List (List Char)}
    (hstated : Conditions stated ms) (ht : Spells t ms) :
    ∃ ls, Conditions ((p :: ps) :: stated) ls ∧
      Spells ((writeGroup (a :: group)).toList ++ ' ' :: ("or".toList ++ ' ' :: t)) ls := by
  obtain ⟨ls, hstates, hspells⟩ := ha.states
  -- the grammar nests to the right: only the last atom of the group meets the `or`
  induction hgroup generalizing a p ls with
  | nil =>
    refine ⟨_, .or hstates hstated, ?_⟩
    have hor := hspells.append ((Spells.one "or".toList).append ht)
    simpa [writeGroup] using hor
  | @cons b q group ps hb _ ih =>
    obtain ⟨ls', hstates', hspells'⟩ := hb.states
    obtain ⟨more, hconditions, hmore⟩ := ih hb ls' hstates' hspells'
    refine ⟨_, .and hstates hconditions, ?_⟩
    rw [writeGroup_cons, List.append_assoc, List.cons_append, List.append_assoc, List.cons_append]
    exact hspells.append ((Spells.one _).append hmore)

/-- What groups of atoms write are the conditions that they state. -/
theorem conditions_writeGroups {groups : List (List Atom)} {stated : List (List Predicate)}
    (h : List.Forall₂ (List.Forall₂ Atom.Writes) groups stated) (hne : stated ≠ [])
    (hgroups : ∀ group ∈ stated, group ≠ []) :
    ∃ ls, Conditions stated ls ∧ Spells (writeGroups groups).toList ls := by
  induction h with
  | nil => contradiction
  | @cons group ps groups stated hgroup hrest ih =>
    have hps := hgroups ps List.mem_cons_self
    cases hgroup with
    | nil => contradiction
    | cons ha htail =>
      cases hrest with
      | nil =>
        obtain ⟨ls, hconditions, hspells⟩ := conditions_writeGroup ha htail
        refine ⟨ls, hconditions, ?_⟩
        simpa [writeGroups] using hspells
      | cons hnext hmore =>
        obtain ⟨ms, hconditions, hspells⟩ := ih (List.cons_ne_nil _ _)
          fun group hgroup => hgroups group (List.mem_cons_of_mem _ hgroup)
        obtain ⟨ls, hall, hor⟩ := conditions_writeGroup_or ha htail hconditions hspells
        refine ⟨ls, hall, ?_⟩
        rw [writeGroups_cons]
        exact hor

/-- The filter that is written. -/
theorem finds_writeFilter {groups : List (List Atom)} {stated : List (List Predicate)}
    (h : List.Forall₂ (List.Forall₂ Atom.Writes) groups stated)
    (hgroups : ∀ group ∈ stated, group ≠ []) :
    ∃ ls, Finds (.ofGroups stated) ls ∧ Spells (writeFilter groups).toList ls := by
  cases h with
  | nil => exact ⟨_, .everything, spells_wordsOf "find all entries;"⟩
  | @cons group ps groups stated hgroup hrest =>
    obtain ⟨ls, hconditions, hspells⟩ :=
      conditions_writeGroups (.cons hgroup hrest) (List.cons_ne_nil _ _) hgroups
    obtain ⟨closed, hclosed, hspells⟩ := hspells.closed
    refine ⟨_, .conditions hconditions hclosed, ?_⟩
    have hall := (spells_wordsOf "find entries whose").append hspells
    simpa [writeFilter, writeGroups, writeGroup, Function.comp_def] using hall

/-! ## Shown fields and order -/

/-- Several fields, of which the last stands after `and`. -/
theorem laterFields_writeFields (mark : Char) (f g : Field) (fields : List Field) :
    ∃ ls, LaterFields mark (g :: fields) ls ∧
      Spells ((writeFields (f :: g :: fields)).toList ++ [mark])
        ((f.name.toList ++ [',']) :: ls) := by
  induction fields generalizing f g with
  | nil =>
    refine ⟨_, .last g, ?_⟩
    have hspells := (Spells.one (f.name.toList ++ [','])).append
      ((Spells.one "and".toList).append (.one (g.name.toList ++ [mark])))
    simpa [writeFields] using hspells
  | cons next fields ih =>
    obtain ⟨ls, hlater, hspells⟩ := ih g next
    refine ⟨_, .plain g hlater, ?_⟩
    have hall := (Spells.one (f.name.toList ++ [','])).append hspells
    simpa [writeFields] using hall

/-- Fields are written with their marks and the `and` in front of the last. -/
theorem shownFields_writeFields (mark : Char) {fields : List Field} (h : fields ≠ []) :
    ∃ ls, ShownFields mark fields ls ∧ Spells ((writeFields fields).toList ++ [mark]) ls := by
  cases fields with
  | nil => contradiction
  | cons f fields =>
    cases fields with
    | nil => exact ⟨_, .one f, .one _⟩
    | cons g fields =>
      obtain ⟨ls, hlater, hspells⟩ := laterFields_writeFields mark f g fields
      exact ⟨_, .several f hlater, hspells⟩

/-- The fields that are shown, and what follows them. -/
theorem ending_writeOrder {fields : List Field} (h : fields ≠ []) (sort : Option Field) :
    ∃ mark shows ending, ShownFields mark fields shows ∧ Ending mark sort ending ∧
      Spells ((writeFields fields).toList ++ (writeOrder sort).toList) (shows ++ ending) := by
  cases sort with
  | none =>
    obtain ⟨shows, hshows, hspells⟩ := shownFields_writeFields '.' h
    refine ⟨'.', shows, [], hshows, .stop, ?_⟩
    rw [List.append_nil]
    exact hspells
  | some f =>
    obtain ⟨shows, hshows, hspells⟩ := shownFields_writeFields ';' h
    refine ⟨';', shows, _, hshows, .order f, ?_⟩
    have hwrite : writeOrder (some f) = "; sort in ascending order by " ++ f.name ++ "." := rfl
    have hall := hspells.append
      ((spells_wordsOf "sort in ascending order by").append (.one (f.name.toList ++ ['.'])))
    rw [hwrite]
    simpa using hall

/-! ## The sentence -/

/-- A query is written clause by clause. -/
theorem write_eq (dataset : String) (groups : List (List Atom)) (display : List Field)
    (sort : Option Field) :
    write dataset groups display sort = "In courses dataset " ++ dataset ++ ", " ++
      writeFilter groups ++ " show " ++ writeFields display ++ writeOrder sort := rfl

/-- What is written asks for the query that it was written for. -/
theorem asks_write {groups : List (List Atom)} {stated : List (List Predicate)} {q : Query}
    {display : List Field} (hvalid : DatasetId.Valid q.dataset)
    (hatoms : List.Forall₂ (List.Forall₂ Atom.Writes) groups stated)
    (hgroups : ∀ group ∈ stated, group ≠ []) (hfilter : q.filter = .ofGroups stated)
    (hdisplay : display ≠ []) (hshown : ∀ f, f ∈ q.display ↔ f ∈ display) :
    Asks (write q.dataset groups display q.sort) q := by
  obtain ⟨finds, hfinds, hspells⟩ := finds_writeFilter hatoms hgroups
  obtain ⟨mark, shows, ending, hshows, hending, hrest⟩ := ending_writeOrder hdisplay q.sort
  rw [← hfilter] at hfinds
  refine ⟨hvalid, finds, display, mark, shows, ending, hfinds, hshows, hshown, hending, ?_⟩
  have htext : (write q.dataset groups display q.sort).toList =
      "In courses dataset".toList ++ ' ' :: (q.dataset.toList ++ [',']) ++
        ' ' :: (writeFilter groups).toList ++ ' ' :: "show".toList ++
          ' ' :: ((writeFields display).toList ++ (writeOrder q.sort).toList) := by
    rw [write_eq]
    simp
  rw [htext, List.append_assoc _ shows]
  exact (((((spells_wordsOf _).append (.one _)).append hspells).append
    (spells_wordsOf _)).append hrest).laidOut

/-- Every query can be written, and what is written is read as that query: whatever the texts of its
literals are as long as no `*` is in them, with any numerals for its bounds, and with its fields in
any order and any number of times. -/
theorem read_write {dataset : String} {groups : List (List Atom)} {stated : List (List Predicate)}
    {display : List Field} {sort : Option Field} (hvalid : DatasetId.Valid dataset)
    (hatoms : List.Forall₂ (List.Forall₂ Atom.Writes) groups stated)
    (hgroups : ∀ group ∈ stated, group ≠ []) (hdisplay : display ≠ [])
    (hsort : ∀ f ∈ sort, f ∈ display) :
    ∃ q, read (write dataset groups display sort) = .ok q ∧ q.dataset = dataset ∧
      (stated = [] → q.filter = .everything) ∧ (stated ≠ [] → q.filter.groups = stated) ∧
      q.filter = .ofGroups stated ∧ (∀ f, f ∈ q.display ↔ f ∈ display) ∧ q.sort = sort := by
  obtain ⟨q, hparts⟩ := Query.exists_ofParts dataset (.ofGroups stated) hdisplay hsort
  obtain ⟨rfl, hfilter, hfields, rfl⟩ := Query.ofParts_eq_ok_iff.1 hparts
  have hshown : ∀ f, f ∈ q.display ↔ f ∈ display := fun f => Query.mem_display_iff hfields
  have hread := read_of_asks (asks_write hvalid hatoms hgroups hfilter hdisplay hshown)
  refine ⟨q, hread, rfl, ?_, ?_, hfilter, hshown, rfl⟩
  · rintro rfl
    exact hfilter
  · intro hstated
    rw [hfilter]
    exact Filter.groups_ofGroups hstated hgroups

/-- Atoms whose texts look like the end of a filter, end with a backslash, or are empty. -/
def trickyAtoms : List (List Atom) :=
  [[.text .title .is true " a; show \"b\" and \\", .number .average .greater false "095.0"],
   [.text .instructor .includes false ""]]

/-- What these atoms state. -/
def trickyGroups : List (List Predicate) :=
  [[⟨.title, .text .is true " a; show \"b\" and \\"⟩,
    ⟨.average, .number .greater false (.ofInt 95)⟩],
   [⟨.instructor, .text .includes false ""⟩]]

/-- The tricky literals are written as atoms of their groups. -/
theorem writes_trickyAtoms :
    List.Forall₂ (List.Forall₂ Atom.Writes) trickyAtoms trickyGroups := by
  have htitle : '*' ∉ " a; show \"b\" and \\".toList := by decide
  have hinstructor : '*' ∉ "".toList := by decide
  have haverage : Binary64.ofPlain? "095.0" = some (.ofInt 95) := by decide +kernel
  refine .cons (.cons ⟨rfl, rfl, ?_⟩ (.cons ⟨?_, rfl, nofun⟩ .nil))
    (.cons (.cons ⟨rfl, rfl, ?_⟩ .nil) .nil)
  · rintro relation negated literal h
    cases h
    exact htitle
  · rw [Atom.predicate?, haverage, Option.map_some]
  · rintro relation negated literal h
    cases h
    exact hinstructor

/-- Literals with quotes, backslashes and semicolons come back from a sentence as they were. -/
theorem read_write_trickyAtoms :
    DatasetId.Valid "abc" ∧ List.Forall₂ (List.Forall₂ Atom.Writes) trickyAtoms trickyGroups ∧
      ∃ q, read (write "abc" trickyAtoms [.title, .average, .title] (some .average)) = .ok q ∧
        q.filter.groups = trickyGroups ∧ q.sort = some .average := by
  have hvalid : DatasetId.Valid "abc" := by decide
  have hgroups : ∀ group ∈ trickyGroups, group ≠ [] := by decide
  have hsort : ∀ f ∈ some Field.average, f ∈ [Field.title, .average, .title] := by decide
  obtain ⟨q, hread, -, -, hstated, -, -, horder⟩ :=
    read_write hvalid writes_trickyAtoms hgroups (List.cons_ne_nil _ _) hsort
  exact ⟨hvalid, writes_trickyAtoms, q, hread, hstated (List.cons_ne_nil _ _), horder⟩

end CourseQuery.Sentence
