import CourseQuery.Proofs.Sentence.Writing

/-!
# Stars in the literals of sentences

The body of a literal cannot hold a bare `*`. But a backslash takes the character after it, whatever
that is, and stays before it unless it is a quote or a backslash, so `\*` stands for itself. The
texts that literals denote are therefore those in which every `*` comes directly behind a backslash
(`exists_body_iff`), and the literals of the filters that are read are just these.
-/

set_option autoImplicit false

namespace CourseQuery.Sentence

/-! ## Bodies -/

/-- Every `*` of a text comes directly behind a backslash. -/
def StarsEscaped (text : List Char) : Prop :=
  ∀ front back, text = front ++ '*' :: back → front.getLast? = some '\\'

section

variable {c : Char} {text : List Char}

/-- The empty text has no star. -/
theorem starsEscaped_nil : StarsEscaped [] := by
  intro front back h
  have hlength := congrArg List.length h
  simp at hlength

/-- A character that is no star escapes nothing and needs no escape. -/
theorem StarsEscaped.cons (h : StarsEscaped text) (hc : c ≠ '*') : StarsEscaped (c :: text) := by
  intro front back htext
  cases front with
  | nil => exact absurd (List.cons.inj htext).1 hc
  | cons d front => simp [List.getLast?_cons, h front back (List.cons.inj htext).2]

/-- A star behind a backslash is escaped. -/
theorem StarsEscaped.escaped (h : StarsEscaped text) : StarsEscaped ('\\' :: '*' :: text) := by
  intro front back htext
  rcases front with _ | ⟨d, _ | ⟨e, front⟩⟩
  · exact absurd (List.cons.inj htext).1 (by decide)
  · rw [← (List.cons.inj htext).1]
    rfl
  · have hrest := h front back (List.cons.inj (List.cons.inj htext).2).2
    simp [List.getLast?_cons, hrest]

/-- The end of a text has its stars escaped if it does not begin with one. -/
theorem StarsEscaped.of_append (front : List Char) (h : StarsEscaped (front ++ text))
    (hhead : text.head? ≠ some '*') : StarsEscaped text := by
  intro mid back htext
  cases mid with
  | nil =>
    rw [htext] at hhead
    exact absurd rfl hhead
  | cons d mid =>
    have hlast := h (front ++ d :: mid) back (by rw [htext, List.append_assoc])
    simpa [List.getLast?_append, List.getLast?_cons] using hlast

/-- A star is behind a backslash at the front of a text too. -/
theorem StarsEscaped.eq_backslash (h : StarsEscaped (c :: '*' :: text)) : c = '\\' :=
  Option.some.inj (h [c] text rfl)

/-- The text of a body has its stars escaped. -/
theorem Body.starsEscaped {body : List Char} (h : Body body text) : StarsEscaped text := by
  induction h with
  | nil => exact starsEscaped_nil
  | escaped hc _ ih =>
    refine ih.cons ?_
    rcases hc with rfl | rfl <;> decide
  | @kept c body text _ _ ih =>
    by_cases hstar : c = '*'
    · rw [hstar]
      exact ih.escaped
    · exact (ih.cons hstar).cons (by decide)
  | plain _ _ hstar _ ih => exact ih.cons hstar

/-- A text whose stars are escaped has a body: a backslash before a star is kept, every other one is
escaped. -/
theorem StarsEscaped.exists_body (h : StarsEscaped text) : ∃ body, Body body text := by
  induction hlength : text.length using Nat.strongRecOn generalizing text with
  | ind n ih =>
    subst hlength
    cases text with
    | nil => exact ⟨[], .nil⟩
    | cons c text =>
      by_cases hhead : text.head? = some '*'
      · obtain ⟨rest, rfl⟩ := List.head?_eq_some_iff.1 hhead
        obtain rfl := h.eq_backslash
        have hrest : rest.head? ≠ some '*' := by
          intro hrest
          obtain ⟨rest, rfl⟩ := List.head?_eq_some_iff.1 hrest
          have hlast : ['\\', '*'].getLast? = some '\\' := h ['\\', '*'] rest rfl
          exact absurd hlast (by decide)
        have hstars : StarsEscaped rest := StarsEscaped.of_append ['\\', '*'] h hrest
        obtain ⟨body, hbody⟩ := ih rest.length (by simp only [List.length_cons]; omega) hstars rfl
        exact ⟨_, .kept (by decide) hbody⟩
      · have hstars : StarsEscaped text := StarsEscaped.of_append [c] h hhead
        obtain ⟨body, hbody⟩ := ih text.length (by simp) hstars rfl
        have hstar : c ≠ '*' := by
          rintro rfl
          exact absurd (h [] text rfl) (by decide)
        by_cases hquote : c = '"' ∨ c = '\\'
        · exact ⟨_, .escaped hquote hbody⟩
        · rw [not_or] at hquote
          exact ⟨_, .plain hquote.1 hquote.2 hstar hbody⟩

/-- A text can be spelled in a literal if its stars are escaped. -/
theorem exists_body_iff : (∃ body, Body body text) ↔ StarsEscaped text :=
  ⟨fun ⟨_, h⟩ => h.starsEscaped, StarsEscaped.exists_body⟩

end

/-! ## Predicates -/

/-- A textual predicate can be stated exactly when its field is textual and the stars of its literal
are escaped. -/
theorem exists_states_text_iff {field : Field} {relation : TextRelation} {negated : Bool}
    {literal : String} :
    (∃ lexemes, States ⟨field, .text relation negated literal⟩ lexemes) ↔
      field.kind = .text ∧ StarsEscaped literal.toList := by
  constructor
  · rintro ⟨lexemes, hstates⟩
    cases hstates with
    | mk _ hcomparison =>
      generalize field.kind = kind at hcomparison
      cases hcomparison with
      | text _ _ hbody =>
        rw [String.toList_ofList]
        exact ⟨rfl, hbody.starsEscaped⟩
  · rintro ⟨hkind, hstars⟩
    obtain ⟨body, hbody⟩ := hstars.exists_body
    have hcomparison := Comparison.text relation negated hbody
    rw [← hkind, String.ofList_toList] at hcomparison
    exact ⟨_, .mk field hcomparison⟩

/-- Every predicate of conditions is stated by some of their lexemes. -/
theorem Conditions.exists_states {groups : List (List Predicate)} {lexemes : List (List Char)}
    {p : Predicate} (h : Conditions groups lexemes) (hp : p ∈ groups.flatten) :
    ∃ part, States p part := by
  induction h with
  | atom hstates =>
    obtain rfl : p = _ := by simpa using hp
    exact ⟨_, hstates⟩
  | @and q group groups _ _ hstates _ ih =>
    rw [List.flatten_cons, List.cons_append, ← List.flatten_cons] at hp
    rcases List.mem_cons.1 hp with rfl | hp
    · exact ⟨_, hstates⟩
    · exact ih hp
  | or hstates _ ih =>
    rw [List.flatten_cons, List.singleton_append] at hp
    rcases List.mem_cons.1 hp with rfl | hp
    · exact ⟨_, hstates⟩
    · exact ih hp

/-! ## Sentences -/

/-- Any lexemes can be laid out. -/
theorem exists_laidOut {lexemes : List (List Char)} (h : lexemes ≠ []) :
    ∃ source : String, LaidOut lexemes source.toList := by
  have hspells : ∃ s, Spells s lexemes := by
    induction lexemes with
    | nil => contradiction
    | cons lexeme lexemes ih =>
      by_cases hnil : lexemes = []
      · rw [hnil]
        exact ⟨lexeme, .one lexeme⟩
      · obtain ⟨s, hs⟩ := ih hnil
        exact ⟨_, .cons lexeme hs⟩
  obtain ⟨s, hs⟩ := hspells
  refine ⟨String.ofList s, ?_⟩
  rw [String.toList_ofList]
  exact hs.laidOut

/-- The predicates of the filters of sentences are those that can be stated. -/
theorem exists_read_iff {p : Predicate} :
    (∃ source q, read source = .ok q ∧ p ∈ q.filter.predicates) ↔ ∃ lexemes, States p lexemes := by
  constructor
  · rintro ⟨source, q, hread, hp⟩
    obtain ⟨-, _, _, _, _, _, hfinds, -⟩ := asks_of_read hread
    generalize q.filter = filter at hfinds hp
    cases hfinds with
    | everything => contradiction
    | conditions hconditions _ =>
      rw [Filter.predicates_ofGroups] at hp
      exact hconditions.exists_states hp
  · rintro ⟨lexemes, hstates⟩
    have hshows : ([.title] : List Field) ≠ [] := List.cons_ne_nil _ _
    have hunsorted : ∀ f ∈ (none : Option Field), f ∈ [Field.title] := by simp
    obtain ⟨q, hparts⟩ := Query.exists_ofParts "abc" (.ofGroups [[p]]) hshows hunsorted
    obtain ⟨hdataset, hfilter, hshown, hsort⟩ := Query.ofParts_eq_ok_iff.1 hparts
    have hfinds : Finds q.filter (wordsOf "find entries whose" ++ (lexemes ++ [[';']])) := by
      rw [hfilter]
      exact .conditions (.atom hstates) (.alone lexemes)
    have hending : Ending '.' q.sort [] := by
      rw [hsort]
      exact .stop
    have hne : wordsOf "In courses dataset" ++ [q.dataset.toList ++ [',']] ++
        (wordsOf "find entries whose" ++ (lexemes ++ [[';']])) ++ wordsOf "show" ++
        [Field.title.name.toList ++ ['.']] ++ [] ≠ [] := by simp
    obtain ⟨source, hlaidOut⟩ := exists_laidOut hne
    refine ⟨source, q, read_of_asks ⟨?_, _, _, _, _, _, hfinds, .one .title,
      fun f => Query.mem_display_iff hshown, hending, hlaidOut⟩, ?_⟩
    · rw [hdataset]
      decide
    · rw [hfilter, Filter.predicates_ofGroups]
      simp

/-- So are those of filters that are read alone. -/
theorem exists_filter_iff {p : Predicate} :
    (∃ source e, FilterClause.filter source (tokenize source) = .ok e ∧
      p ∈ e.predicates) ↔ ∃ lexemes, States p lexemes := by
  constructor
  · rintro ⟨source, e, hread, hp⟩
    rw [tokenize_eq] at hread
    obtain ⟨groups, hgroups, rfl⟩ := map_eq_ok_iff.1 hread
    obtain ⟨_, _, hconditions, -⟩ :=
      (FilterClause.groups_eq_ok_iff (within_source source)).1 hgroups
    rw [Filter.predicates_ofGroups] at hp
    exact hconditions.exists_states hp
  · rintro ⟨lexemes, hstates⟩
    have hne : lexemes ≠ [] := by
      cases hstates
      exact List.cons_ne_nil _ _
    obtain ⟨source, rest, htakes, hrest⟩ := exists_laidOut hne
    refine ⟨source, .ofGroups [[p]], ?_, by simp [Filter.predicates_ofGroups]⟩
    rw [tokenize_eq]
    exact map_eq_ok_iff.2 ⟨_, (FilterClause.groups_eq_ok_iff (within_source source)).2
      ⟨lexemes, rest, .atom hstates, htakes, hrest⟩, rfl⟩

/-- The literals of the filters that are read, in a sentence or alone, are the texts in which every
`*` comes directly behind a backslash. -/
theorem literal_iff_starsEscaped (field : Field) (relation : TextRelation) (negated : Bool)
    (literal : String) :
    ((∃ source q, read source = .ok q ∧
        ⟨field, .text relation negated literal⟩ ∈ q.filter.predicates) ↔
      field.kind = .text ∧ StarsEscaped literal.toList) ∧
    ((∃ source e, FilterClause.filter source (tokenize source) = .ok e ∧
        ⟨field, .text relation negated literal⟩ ∈ e.predicates) ↔
      field.kind = .text ∧ StarsEscaped literal.toList) :=
  ⟨exists_read_iff.trans exists_states_text_iff, exists_filter_iff.trans exists_states_text_iff⟩

/-- A sentence with a star behind a backslash. -/
def starSentence : String :=
  "In courses dataset abc, find entries whose Title is \"a\\*\"; show Title."

/-- A sentence can be read although the literal of its filter holds a star. -/
theorem read_starSentence :
    ∃ q, read starSentence = .ok q ∧
      ∃ literal, q.filter.predicates = [⟨.title, .text .is false literal⟩] ∧
        '*' ∈ literal.toList := by
  have hread : ((read starSentence).toOption.map fun q => q.filter.predicates) =
      some [⟨.title, .text .is false "a\\*"⟩] := by decide +kernel
  cases hq : read starSentence with
  | error rejection =>
    rw [hq] at hread
    contradiction
  | ok q =>
    rw [hq] at hread
    exact ⟨q, rfl, _, Option.some.inj hread, by decide⟩

end CourseQuery.Sentence
