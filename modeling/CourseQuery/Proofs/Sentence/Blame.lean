import CourseQuery.Proofs.Sentence.Reading

/-!
# Which clause a reader blames

Whatever is wrong with a clause, its reader blames that clause, with two exceptions: where the text
ends behind a field without the mark that should follow, the readers of the shown fields and of the
order blame the end of the sentence. The reader of the shown fields does so before it has looked
whether the last of several fields stands after `and`: `LooseAt` says what the words are then.
-/

set_option autoImplicit false

namespace CourseQuery

/-- Whenever a step fails, this holds of the rejection. -/
def FailsWith {α : Type} (p : Rejection → Prop) (x : Except Rejection α) : Prop :=
  ∀ r, x = .error r → p r

section

variable {α β : Type} {p : Rejection → Prop} {x : Except Rejection α}

/-- A step that succeeds does not fail. -/
theorem failsWith_ok (a : α) : FailsWith p (.ok a : Except Rejection α) := by
  intro r hr
  contradiction

/-- A step that fails with a rejection fails as is said of the rejection. -/
theorem failsWith_error {r : Rejection} (h : p r) :
    FailsWith p (.error r : Except Rejection α) := by
  intro _ hr
  rwa [← Except.error.inj hr]

/-- Two steps fail as each of them does. -/
theorem FailsWith.bind {f : α → Except Rejection β} (hx : FailsWith p x)
    (hf : ∀ a, x = .ok a → FailsWith p (f a)) : FailsWith p (x >>= f) := by
  intro r hr
  rcases bind_eq_error_iff.1 hr with hr | ⟨a, ha, hr⟩
  · exact hx r hr
  · exact hf a ha r hr

/-- What is done with the result of a step changes nothing about how it fails. -/
theorem FailsWith.map {f : α → β} (hx : FailsWith p x) : FailsWith p (x.map f) := by
  intro r hr
  exact hx r (map_eq_error_iff.1 hr)

end

/-- A step fails and blames a clause. -/
def Rejects {α : Type} (clause : Clause) (x : Except Rejection α) : Prop :=
  ∃ r, x = .error r ∧ r.clause = clause

/-- Whenever a step fails, it blames a clause of which this holds. -/
def Blames {α : Type} (p : Clause → Prop) (x : Except Rejection α) : Prop :=
  ∀ r, x = .error r → p r.clause

section

variable {α β : Type} {clause : Clause} {p : Clause → Prop} {x : Except Rejection α}

/-- A step that succeeds blames nothing. -/
theorem blames_ok (a : α) : Blames p (.ok a : Except Rejection α) :=
  failsWith_ok a

/-- A step that fails with a rejection blames the clause of the rejection. -/
theorem blames_error {r : Rejection} (h : p r.clause) :
    Blames p (.error r : Except Rejection α) :=
  failsWith_error h

/-- Two steps blame what each of them blames. -/
theorem Blames.bind {f : α → Except Rejection β} (hx : Blames p x) (hf : ∀ a, Blames p (f a)) :
    Blames p (x >>= f) :=
  FailsWith.bind hx fun a _ => hf a

/-- What is done with the result of a step changes nothing about what it blames. -/
theorem Blames.map {f : α → β} (hx : Blames p x) : Blames p (x.map f) :=
  FailsWith.map hx

/-- What is blamed may be described more widely. -/
theorem Blames.mono {q : Clause → Prop} (h : Blames p x) (hpq : ∀ c, p c → q c) : Blames q x :=
  fun r hr => hpq _ (h r hr)

/-- A step does not blame a clause that it never blames. -/
theorem Blames.not_rejects (h : Blames p x) (hclause : ¬ p clause) : ¬ Rejects clause x := by
  rintro ⟨r, hr, rfl⟩
  exact hclause (h r hr)

/-- A step that blames a clause fails with a rejection of this clause. -/
theorem Rejects.clause_eq {r : Rejection} (h : Rejects clause x) (hx : x = .error r) :
    r.clause = clause := by
  obtain ⟨r', hr', rfl⟩ := h
  rw [hx] at hr'
  rw [Except.error.inj hr']

/-- A step that blames a clause does not succeed. -/
theorem Rejects.not_ok (h : Rejects clause x) (a : α) : x ≠ .ok a := by
  obtain ⟨r, rfl, -⟩ := h
  intro hok
  contradiction

/-- A step that succeeds blames no clause. -/
theorem not_rejects_ok (a : α) : ¬ Rejects clause (.ok a : Except Rejection α) := by
  intro h
  exact h.not_ok a rfl

/-- A step that fails with a rejection of one clause does not blame another. -/
theorem not_rejects_error {r : Rejection} {c : Clause} (hr : r.clause = c) (hc : c ≠ clause) :
    ¬ Rejects clause (.error r : Except Rejection α) := by
  intro h
  exact hc (hr.symm.trans (h.clause_eq rfl))

/-- A step that fails with a rejection blames the clause of the rejection. -/
theorem rejects_error_iff {r : Rejection} :
    Rejects clause (.error r : Except Rejection α) ↔ r.clause = clause := by
  simp [Rejects]

/-- Two steps blame a clause exactly when the first does or the second does on its result. -/
theorem rejects_bind_iff {f : α → Except Rejection β} :
    Rejects clause (x >>= f) ↔ Rejects clause x ∨ ∃ a, x = .ok a ∧ Rejects clause (f a) := by
  simp only [Rejects, bind_eq_error_iff]
  constructor
  · rintro ⟨r, hr | ⟨a, ha, hr⟩, hclause⟩
    · exact .inl ⟨r, hr, hclause⟩
    · exact .inr ⟨a, ha, r, hr, hclause⟩
  · rintro (⟨r, hr, hclause⟩ | ⟨a, ha, r, hr, hclause⟩)
    · exact ⟨r, .inl hr, hclause⟩
    · exact ⟨r, .inr ⟨a, ha, hr⟩, hclause⟩

end

/-! ## The filter -/

namespace FilterClause

variable {source : String}

-- The readers of phrases give causes of their own. What holds of every rejection with such a cause
-- therefore holds of theirs, whatever it is.
section Phrases

variable {p : Rejection → Prop}
  (hp : ∀ cause token, cause ≠ .literalOutside → p (.invalidFilter cause token))
include hp

/-- Taking a word of a filter fails as every step of the filter does. -/
theorem takeWord_failsWith (word : String) (ts : List Token) :
    FailsWith p (takeWord word ts) := by
  cases ts with
  | nil => exact failsWith_error (hp _ _ (by simp))
  | cons t ts =>
    rw [takeWord]
    split
    · exact failsWith_ok _
    · exact failsWith_error (hp _ _ (by simp))

/-- Reading the phrase of a number fails as every step of the filter does. -/
theorem numberOperator_failsWith (ts : List Token) : FailsWith p (numberOperator ts) := by
  refine (takeWord_failsWith hp _ _).bind fun afterIs _ => ?_
  dsimp only
  split
  · exact failsWith_error (hp _ _ (by simp))
  · exact (takeWord_failsWith hp _ _).bind fun _ _ => failsWith_ok _

/-- Reading a number fails as every step of the filter does. -/
theorem bound_failsWith (ts : List Token) : FailsWith p (bound ts) := by
  cases ts with
  | nil => exact failsWith_error (hp _ _ (by simp))
  | cons t ts =>
    rw [bound]
    split
    · exact failsWith_ok _
    · exact failsWith_error (hp _ _ (by simp))

/-- Reading the end of a phrase fails as every step of the filter does. -/
theorem endPhrase_failsWith (word : String) (op : TextRelation × Bool) (ts : List Token) :
    FailsWith p (endPhrase word op ts) :=
  (takeWord_failsWith hp word ts).map

/-- Reading a negated phrase fails as every step of the filter does. -/
theorem negatedOperator_failsWith (ts : List Token) : FailsWith p (negatedOperator ts) := by
  unfold negatedOperator
  dsimp only
  split
  · exact failsWith_ok _
  · split
    · exact endPhrase_failsWith hp _ _ _
    · split
      · exact endPhrase_failsWith hp _ _ _
      · exact failsWith_error (hp _ _ (by simp))

/-- Reading the phrase of a text fails as every step of the filter does. -/
theorem textOperator_failsWith (ts : List Token) : FailsWith p (textOperator ts) := by
  cases ts with
  | nil => exact failsWith_error (hp _ _ (by simp))
  | cons t ts =>
    rw [textOperator]
    split
    · exact failsWith_ok _
    · split
      · exact failsWith_ok _
      · split
        · exact endPhrase_failsWith hp _ _ _
        · split
          · exact endPhrase_failsWith hp _ _ _
          · split
            · exact (takeWord_failsWith hp _ _).bind fun ts _ => negatedOperator_failsWith hp ts
            · exact failsWith_error (hp _ _ (by simp))

/-- Reading a condition on a number fails as every step of the filter does. -/
theorem numberCondition_failsWith (ts : List Token) : FailsWith p (numberCondition ts) :=
  (numberOperator_failsWith hp ts).bind fun _ _ =>
    (bound_failsWith hp _).bind fun _ _ => failsWith_ok _

end Phrases

/-- Reading a literal blames the filter. -/
theorem literal_blames (ts : List Token) : Blames (· = .filter) (literal source ts) := by
  cases ts with
  | nil => exact blames_error rfl
  | cons first ts =>
    rw [literal]
    split
    · split
      · exact blames_error rfl
      · split
        · exact blames_error rfl
        · split
          · exact blames_ok _
          · exact blames_error rfl
    · exact blames_error rfl

/-- Reading a condition blames the filter. -/
theorem condition_blames (kind : CellKind) (ts : List Token) :
    Blames (· = .filter) (condition source kind ts) := by
  cases kind with
  | number => exact numberCondition_failsWith (fun _ _ _ => rfl) ts
  | text =>
    have hoperator : Blames (· = .filter) (textOperator ts) :=
      textOperator_failsWith (fun _ _ _ => rfl) ts
    exact hoperator.bind fun _ => (literal_blames _).bind fun _ => blames_ok _

/-- Reading a predicate blames the filter. -/
theorem predicate_blames (ts : List Token) : Blames (· = .filter) (predicate source ts) := by
  cases ts with
  | nil => exact blames_error rfl
  | cons t ts =>
    rw [predicate]
    split
    · exact blames_error rfl
    · exact (condition_blames _ _).map

/-- Reading further predicates blames the filter. -/
theorem moreGroups_blames (group : List Predicate) (ts : List Token) :
    Blames (· = .filter) (moreGroups source group ts) := by
  fun_induction moreGroups source group ts with
  | case1 => exact blames_ok _
  | case2 group t ts _ r hread => exact blames_error (predicate_blames _ r hread)
  | case3 _ _ _ _ _ _ _ _ ih => exact ih
  | case4 group t ts _ _ r hread => exact blames_error (predicate_blames _ r hread)
  | case5 _ _ _ _ _ _ _ _ _ ih => exact ih.map
  | case6 => exact blames_error rfl

/-- Reading the conditions of a filter blames the filter. -/
theorem filter_blames (ts : List Token) : Blames (· = .filter) (filter source ts) := by
  refine Blames.map ?_
  unfold groups
  split
  · exact blames_error rfl
  · split
    · rename_i r hread
      exact blames_error (predicate_blames _ r hread)
    · exact moreGroups_blames _ _

end FilterClause

namespace Sentence

variable {source : String} {ts : List Token}

/-- Taking a word blames the clause that it stands in. -/
theorem takeWord_blames (clause : Clause) (word : String) (ts : List Token) :
    Blames (· = clause) (takeWord clause word ts) := by
  cases ts with
  | nil => exact blames_error rfl
  | cons t ts =>
    rw [takeWord]
    split
    · exact blames_ok _
    · exact blames_error rfl

/-- Taking words blames the clause that they stand in. -/
theorem takeWords_blames (clause : Clause) (words : List String) (ts : List Token) :
    Blames (· = clause) (takeWords clause words ts) := by
  induction words generalizing ts with
  | nil => exact blames_ok _
  | cons word words ih => exact (takeWord_blames clause word ts).bind ih

/-- A word is taken if it is the first token. -/
theorem takeWord_tokens {clause : Clause} {word : String} {left : List Token} :
    takeWord clause word ts = .ok left ↔ ∃ t, ts = t :: left ∧ t.chars = word.toList := by
  cases ts with
  | nil => simp [takeWord]
  | cons t ts =>
    rw [takeWord]
    split
    · rename_i hword
      rw [Except.ok.injEq]
      constructor
      · rintro rfl
        exact ⟨t, rfl, congrArg String.toList hword⟩
      · rintro ⟨t', heq, -⟩
        exact (List.cons.inj heq).2
    · rename_i hword
      refine iff_of_false (by simp) ?_
      rintro ⟨t', heq, hchars⟩
      rw [(List.cons.inj heq).1] at hword
      exact hword (String.toList_inj.1 hchars)

/-- Words are taken if they are the first tokens. -/
theorem takeWords_tokens {clause : Clause} {words : List String} {left : List Token} :
    takeWords clause words ts = .ok left ↔
      ∃ front, ts = front ++ left ∧ front.map Token.chars = words.map String.toList := by
  induction words generalizing ts with
  | nil => simp [takeWords]
  | cons word words ih =>
    rw [takeWords, bind_eq_ok_iff, List.map_cons]
    constructor
    · rintro ⟨_, hfirst, hmore⟩
      obtain ⟨t, rfl, ht⟩ := takeWord_tokens.1 hfirst
      obtain ⟨front, rfl, hfront⟩ := ih.1 hmore
      exact ⟨t :: front, rfl, by rw [List.map_cons, ht, hfront]⟩
    · rintro ⟨front, rfl, hfront⟩
      obtain ⟨t, front, rfl, ht, hfront⟩ := List.map_eq_cons_iff.1 hfront
      exact ⟨_, takeWord_tokens.2 ⟨t, rfl, ht⟩, ih.2 ⟨front, rfl, hfront⟩⟩

/-- Reading the dataset blames the dataset clause. -/
theorem datasetClause_blames (ts : List Token) : Blames (· = .dataset) (datasetClause ts) := by
  refine (takeWords_blames _ _ ts).bind fun ts => ?_
  cases ts with
  | nil => exact blames_error rfl
  | cons t ts =>
    dsimp only
    split
    · exact blames_error rfl
    · split
      · exact blames_error rfl
      · exact blames_ok _

/-- Looking for the end of the filter blames the filter. -/
theorem filterTokens_blames (inLiteral : Bool) (ts : List Token) :
    Blames (· = .filter) (filterTokens inLiteral ts) := by
  induction ts generalizing inLiteral with
  | nil => exact blames_error rfl
  | cons t ts ih =>
    rw [filterTokens]
    dsimp only
    split
    · exact blames_ok _
    · exact (ih _).bind fun _ => blames_ok _

/-- Reading the filter clause blames the filter. -/
theorem filterClause_blames (ts : List Token) : Blames (· = .filter) (filterClause source ts) := by
  refine (takeWord_blames _ _ ts).bind fun ts => ?_
  dsimp only
  split
  · exact (takeWord_blames _ _ _).bind fun _ => blames_ok _
  · split
    · exact (takeWord_blames _ _ _).bind fun _ => (filterTokens_blames _ _).bind fun _ =>
        (FilterClause.filter_blames _).bind fun _ => blames_ok _
    · exact blames_error rfl

/-! ## The shown fields -/

/-- The words of fields of which the last stands without a mark; `lacks` says that the `and` is
missing that should stand before it. -/
def LooseAt (lacks mayEnd : Bool) (fields : List Field) (words : List (List Char)) : Prop :=
  ∃ front last, words = front ++ [last] ∧
    FieldsAt mayEnd '.' fields
      (front ++ ((if lacks then ["and".toList] else []) ++ [last ++ ['.']]))

/-- No name ends with a mark, and none is `and`. -/
theorem name_ne (f : Field) :
    f.name.toList ≠ "and".toList ∧ ∀ mark ∈ Token.marks, ∀ x, f.name.toList ≠ x ++ [mark] := by
  refine ⟨by cases f <;> decide, ?_⟩
  intro mark hmark x heq
  have hlast : f.name.toList.getLast? = some mark := by rw [heq, List.getLast?_concat]
  simp only [Token.marks, List.mem_cons, List.not_mem_nil, or_false] at hmark
  rcases hmark with rfl | rfl | rfl <;> cases f <;> exact absurd hlast (by decide)

section Loose

variable {lacks mayEnd : Bool} {fields : List Field} {w : List Char} {ws : List (List Char)}

/-- One word with the full stop is the last field. -/
theorem fieldsAt_last {last : List Char} :
    FieldsAt mayEnd '.' fields [last ++ ['.']] ↔
      mayEnd = true ∧ ∃ f, fields = [f] ∧ last = f.name.toList := by
  rw [fieldsAt_iff]
  constructor
  · rintro (⟨-, more, heq, -⟩ | ⟨f, later, more, -, heq, -⟩ | ⟨hmay, f, hfields, heq⟩)
    · have hlast := congrArg List.getLast? (List.cons.inj heq).1
      rw [List.getLast?_concat] at hlast
      exact absurd hlast (by decide)
    · have hlast := congrArg List.getLast? (List.cons.inj heq).1
      rw [List.getLast?_concat, List.getLast?_concat] at hlast
      exact absurd hlast (by decide)
    · exact ⟨hmay, f, hfields, List.append_cancel_right (List.cons.inj heq).1⟩
  · rintro ⟨hmay, f, hfields, rfl⟩
    exact .inr (.inr ⟨hmay, f, hfields, rfl⟩)

/-- No words are no fields. -/
theorem not_looseAt_nil : ¬ LooseAt lacks mayEnd fields [] := by
  rintro ⟨front, last, heq, -⟩
  simp at heq

/-- The first word decides how the fields go on. -/
theorem looseAt_cons :
    LooseAt lacks mayEnd fields (w :: ws) ↔
      (mayEnd = false ∧ w = "and".toList ∧ LooseAt lacks true fields ws) ∨
      (∃ f later, fields = f :: later ∧ w = f.name.toList ++ [','] ∧
        LooseAt lacks false later ws) ∨
      (mayEnd = !lacks ∧ ws = [] ∧ ∃ f, fields = [f] ∧ w = f.name.toList) := by
  constructor
  · rintro ⟨front, last, hwords, h⟩
    cases front with
    | nil =>
      obtain ⟨rfl, rfl⟩ := List.cons.inj hwords
      refine .inr (.inr ?_)
      cases lacks with
      | false =>
        obtain ⟨hmay, hlast⟩ := fieldsAt_last.1 h
        exact ⟨hmay, rfl, hlast⟩
      | true =>
        rcases fieldsAt_iff.1 h with ⟨hmay, more, heq, hmore⟩ | ⟨f, later, more, -, heq, -⟩ |
          ⟨-, f, -, heq⟩
        · obtain ⟨-, rfl⟩ := List.cons.inj heq
          exact ⟨hmay, rfl, (fieldsAt_last.1 hmore).2⟩
        · exact absurd (List.cons.inj heq).1.symm (name_mark_isWord f (by decide)).2
        · simp at heq
    | cons x front =>
      obtain ⟨rfl, rfl⟩ := List.cons.inj hwords
      rcases fieldsAt_iff.1 h with ⟨hmay, more, heq, hmore⟩ |
        ⟨f, later, more, hfields, heq, hmore⟩ | ⟨-, f, -, heq⟩
      · obtain ⟨rfl, rfl⟩ := List.cons.inj heq
        exact .inl ⟨hmay, rfl, front, last, rfl, hmore⟩
      · obtain ⟨rfl, rfl⟩ := List.cons.inj heq
        exact .inr (.inl ⟨f, later, hfields, rfl, front, last, rfl, hmore⟩)
      · simp at heq
  · rintro (⟨hmay, rfl, front, last, rfl, h⟩ | ⟨f, later, hfields, rfl, front, last, rfl, h⟩ |
      ⟨hmay, rfl, f, rfl, rfl⟩)
    · exact ⟨"and".toList :: front, last, rfl, fieldsAt_iff.2 (.inl ⟨hmay, _, rfl, h⟩)⟩
    · exact ⟨_ :: front, last, rfl, fieldsAt_iff.2 (.inr (.inl ⟨f, later, _, hfields, rfl, h⟩))⟩
    · refine ⟨[], f.name.toList, rfl, ?_⟩
      cases lacks with
      | false => exact fieldsAt_last.2 ⟨hmay, f, rfl, rfl⟩
      | true =>
        exact fieldsAt_iff.2 (.inl ⟨hmay, _, rfl, fieldsAt_last.2 ⟨rfl, f, rfl, rfl⟩⟩)

/-- An `and` is passed over where no field may end the clause. -/
theorem looseAt_and :
    LooseAt lacks mayEnd fields ("and".toList :: ws) ↔
      mayEnd = false ∧ LooseAt lacks true fields ws := by
  refine looseAt_cons.trans ⟨?_, fun ⟨hmay, h⟩ => .inl ⟨hmay, rfl, h⟩⟩
  rintro (⟨hmay, -, h⟩ | ⟨f, later, -, hw, -⟩ | ⟨-, -, f, -, hw⟩)
  · exact ⟨hmay, h⟩
  · exact absurd hw.symm (name_mark_isWord f (by decide)).2
  · exact absurd hw.symm (name_ne f).1

/-- A word with a mark at its end is a field, and the mark is a comma. -/
theorem looseAt_marked {x : List Char} {mark : Char} (hmark : mark ∈ Token.marks)
    (hand : x ++ [mark] ≠ "and".toList) :
    LooseAt lacks mayEnd fields ((x ++ [mark]) :: ws) ↔
      mark = ',' ∧ ∃ f later, fields = f :: later ∧ x = f.name.toList ∧
        LooseAt lacks false later ws := by
  refine looseAt_cons.trans ⟨?_, ?_⟩
  · rintro (⟨-, hw, -⟩ | ⟨f, later, hfields, hw, h⟩ | ⟨-, -, f, -, hw⟩)
    · exact absurd hw hand
    · obtain ⟨rfl, hcomma⟩ := List.append_inj' hw rfl
      exact ⟨List.singleton_inj.1 hcomma, f, later, hfields, rfl, h⟩
    · exact absurd hw.symm ((name_ne f).2 _ hmark _)
  · rintro ⟨rfl, f, later, hfields, rfl, h⟩
    exact .inr (.inl ⟨f, later, hfields, rfl, h⟩)

/-- A word without a mark, other than `and`, is the last field. -/
theorem looseAt_bare (hand : w ≠ "and".toList)
    (hmark : ∀ mark ∈ Token.marks, ∀ x, w ≠ x ++ [mark]) :
    LooseAt lacks mayEnd fields (w :: ws) ↔
      mayEnd = !lacks ∧ ws = [] ∧ ∃ f, fields = [f] ∧ w = f.name.toList := by
  refine looseAt_cons.trans ⟨?_, ?_⟩
  · rintro (⟨-, hw, -⟩ | ⟨f, later, -, hw, -⟩ | ⟨hmay, hws, f, hfields, hw⟩)
    · exact absurd hw hand
    · exact absurd hw (hmark _ (by decide) _)
    · exact ⟨hmay, hws, f, hfields, hw⟩
  · rintro ⟨hmay, hws, f, hfields, hw⟩
    exact .inr (.inr ⟨hmay, hws, f, hfields, hw⟩)

/-- Words cannot be read both ways: either the `and` is missing or it is not. -/
theorem LooseAt.lacks_unique {lacks' : Bool} {fields' : List Field}
    (h : LooseAt lacks mayEnd fields ws) (h' : LooseAt lacks' mayEnd fields' ws) :
    lacks = lacks' := by
  induction ws generalizing mayEnd fields fields' with
  | nil => exact absurd h not_looseAt_nil
  | cons w ws ih =>
    rcases looseAt_cons.1 h with ⟨-, rfl, hmore⟩ | ⟨f, later, -, rfl, hmore⟩ | ⟨hmay, -, f, -, rfl⟩
    · exact ih hmore (looseAt_and.1 h').2
    · obtain ⟨-, g, later', -, -, hmore'⟩ :=
        (looseAt_marked (by decide) (name_mark_isWord f (by decide)).2).1 h'
      exact ih hmore hmore'
    · obtain ⟨hmay', -⟩ := (looseAt_bare (name_ne f).1 (name_ne f).2).1 h'
      rw [hmay] at hmay'
      exact Bool.not_inj hmay'

/-- The words of fields of which the last stands without a mark are words. -/
theorem LooseAt.isWord (h : LooseAt lacks mayEnd fields ws) : ∀ w ∈ ws, IsWord w := by
  induction ws generalizing mayEnd fields with
  | nil => exact absurd h not_looseAt_nil
  | cons w ws ih =>
    rw [List.forall_mem_cons]
    rcases looseAt_cons.1 h with ⟨-, rfl, hmore⟩ | ⟨f, later, -, rfl, hmore⟩ | ⟨-, rfl, f, -, rfl⟩
    · exact ⟨by decide, ih hmore⟩
    · exact ⟨(name_mark_isWord f (by decide)).1, ih hmore⟩
    · exact ⟨by cases f <;> decide, List.forall_mem_nil _⟩

/-- The tokens of a display clause that ends without its full stop, and perhaps lacks its last
`and`. -/
def LooseDisplay (lacks : Bool) (ts : List Token) : Prop :=
  ∃ fields words, ts.map Token.chars = "show".toList :: words ∧ LooseAt lacks true fields words

end Loose

/-- The characters of a token make up its text. -/
theorem ofList_chars (t : Token) : String.ofList t.chars = t.text :=
  String.ofList_toList

/-- A token without a mark at its end stays whole. -/
theorem eq_of_splitMark_none {t word : Token} (h : t.splitMark = (word, none)) :
    word = t ∧ ∀ mark ∈ Token.marks, ∀ x, t.chars ≠ x ++ [mark] := by
  unfold Token.splitMark at h
  split at h
  · rename_i split hsplit
    obtain ⟨mark, -, hmark⟩ := List.exists_of_findSome?_eq_some hsplit
    obtain ⟨word', -, rfl⟩ := Option.map_eq_some_iff.1 hmark
    exact absurd (Prod.mk.inj h).2 (Option.some_ne_none mark)
  · rename_i hnone
    refine ⟨(Prod.mk.inj h).1.symm, fun mark hmark x hx => ?_⟩
    have hstrip := List.findSome?_eq_none_iff.1 hnone mark hmark
    rw [Option.map_eq_none_iff, Token.strip?, hx, List.getLast?_concat, if_pos rfl] at hstrip
    contradiction

/-- A token from which a mark is split is a word and this mark. -/
theorem chars_of_splitMark {t word : Token} {mark : Char} (h : t.splitMark = (word, some mark)) :
    mark ∈ Token.marks ∧ t.chars = word.chars ++ [mark] := by
  have ht : t = ⟨String.ofList t.chars, t.start, t.stop⟩ := by rw [ofList_chars]
  rw [ht] at h
  obtain ⟨hmark, x, hx, hword⟩ := eq_of_splitMark h
  exact ⟨hmark, by rw [hx, Token.chars, hword, String.toList_ofList]⟩

/-- Reading a field blames the clause that it stands in. -/
theorem fieldOf_blames (clause : Clause) (word : String) :
    Blames (· = clause) (fieldOf clause word) := by
  unfold fieldOf
  split
  · exact blames_ok _
  · exact blames_error rfl

section Display

variable {first sawAnd : Bool} {t : Token}

/-- Reading the shown fields blames the display or the end of the sentence. -/
theorem displayFields_blames (first sawAnd : Bool) (ts : List Token) :
    Blames (fun c => c = .display ∨ c = .terminator) (displayFields first sawAnd ts) := by
  induction ts generalizing first sawAnd with
  | nil => exact blames_error (.inl rfl)
  | cons t ts ih =>
    rw [displayFields]
    split
    · split
      · exact blames_error (.inl rfl)
      · exact ih _ _
    · dsimp only
      refine Blames.bind ((fieldOf_blames _ _).mono fun _ => .inl) fun field => ?_
      split
      · exact (ih _ _).bind fun _ => blames_ok _
      · split
        · exact blames_ok _
        · exact blames_error (.inl rfl)
      · split
        · exact blames_error (.inr rfl)
        · exact blames_error (.inl rfl)

/-- The reader passes an `and` over where it may stand, and otherwise blames the display clause. -/
theorem rejects_displayFields_and (hand : t.text = "and") :
    Rejects .terminator (displayFields first sawAnd (t :: ts)) ↔
      (first || sawAnd) = false ∧ Rejects .terminator (displayFields first true ts) := by
  rw [displayFields, if_pos hand]
  cases hmay : first || sawAnd with
  | true =>
    refine iff_of_false ?_ fun h => Bool.false_ne_true h.1.symm
    exact not_rejects_error (c := .display) rfl (by decide)
  | false => exact ⟨fun h => ⟨rfl, h⟩, fun h => h.2⟩

/-- A word that is no field is a matter of the display clause. -/
theorem not_rejects_fieldOf (word : String) :
    ¬ Rejects .terminator (fieldOf .display word) :=
  (fieldOf_blames .display word).not_rejects (by decide)

/-- Behind a field with a mark the reader goes on at a comma; at any other mark it blames nothing
but the display clause. -/
theorem rejects_displayFields_marked {word : Token} {mark : Char} (hand : t.text ≠ "and")
    (hsplit : t.splitMark = (word, some mark)) :
    Rejects .terminator (displayFields first sawAnd (t :: ts)) ↔
      mark = ',' ∧ (∃ f : Field, word.text = f.name) ∧
        Rejects .terminator (displayFields false false ts) := by
  rw [displayFields, if_neg hand, hsplit]
  simp only [rejects_bind_iff, not_rejects_fieldOf, false_or, fieldOf_eq_ok_iff]
  constructor
  · rintro ⟨f, hf, h⟩
    split at h
    · rename_i hcomma
      rcases rejects_bind_iff.1 h with h | ⟨found, -, h⟩
      · exact ⟨Option.some.inj hcomma, ⟨f, hf⟩, h⟩
      · exact absurd h (not_rejects_ok _)
    · split at h
      · exact absurd h (not_rejects_ok _)
      · exact absurd h (not_rejects_error (c := .display) rfl (by decide))
    · contradiction
  · rintro ⟨rfl, ⟨f, hf⟩, h⟩
    exact ⟨f, hf, rejects_bind_iff.2 (.inl h)⟩

/-- Behind a field without a mark the reader misses the full stop if there is nothing left. -/
theorem rejects_displayFields_bare {word : Token} (hand : t.text ≠ "and")
    (hsplit : t.splitMark = (word, none)) :
    Rejects .terminator (displayFields first sawAnd (t :: ts)) ↔
      ts = [] ∧ ∃ f : Field, word.text = f.name := by
  rw [displayFields, if_neg hand, hsplit]
  simp only [rejects_bind_iff, not_rejects_fieldOf, false_or, fieldOf_eq_ok_iff]
  constructor
  · rintro ⟨f, hf, h⟩
    split at h
    · rename_i hts
      exact ⟨List.isEmpty_iff.1 hts, f, hf⟩
    · exact absurd h (not_rejects_error (c := .display) rfl (by decide))
  · rintro ⟨rfl, f, hf⟩
    exact ⟨f, hf, rejects_error_iff.2 rfl⟩

/-- The reader of the shown fields blames the end of the sentence exactly when the last word stands
without a mark, whether or not it stands after `and`. -/
theorem rejects_displayFields_iff :
    Rejects .terminator (displayFields first sawAnd ts) ↔
      ∃ lacks fields, LooseAt lacks (first || sawAnd) fields (ts.map Token.chars) := by
  induction ts generalizing first sawAnd with
  | nil =>
    refine iff_of_false ?_ fun ⟨lacks, fields, h⟩ => not_looseAt_nil h
    rw [displayFields]
    exact not_rejects_error (c := .display) rfl (by decide)
  | cons t ts ih =>
    rw [List.map_cons]
    by_cases hand : t.text = "and"
    · have hchars : t.chars = "and".toList := congrArg String.toList hand
      simp only [rejects_displayFields_and hand, hchars, looseAt_and, exists_and_left, ih,
        Bool.or_true]
    · have hchars : t.chars ≠ "and".toList := fun h => hand (String.toList_inj.1 h)
      cases hsplit : t.splitMark with
      | mk word mark? =>
        cases mark? with
        | none =>
          obtain ⟨rfl, hmark⟩ := eq_of_splitMark_none hsplit
          rw [rejects_displayFields_bare hand hsplit]
          simp only [looseAt_bare hchars hmark, List.map_eq_nil_iff]
          constructor
          · rintro ⟨hts, f, hf⟩
            exact ⟨!(first || sawAnd), [f], (Bool.not_not _).symm, hts, f, rfl,
              congrArg String.toList hf⟩
          · rintro ⟨lacks, fields, -, hts, f, -, hf⟩
            exact ⟨hts, f, String.toList_inj.1 hf⟩
        | some mark =>
          obtain ⟨hmark, hword⟩ := chars_of_splitMark hsplit
          rw [hword] at hchars
          rw [rejects_displayFields_marked hand hsplit, ih, hword]
          simp only [looseAt_marked hmark hchars]
          constructor
          · rintro ⟨hcomma, ⟨f, hf⟩, lacks, later, h⟩
            exact ⟨lacks, f :: later, hcomma, f, later, rfl, congrArg String.toList hf, h⟩
          · rintro ⟨lacks, fields, hcomma, f, later, -, hf, h⟩
            exact ⟨hcomma, ⟨f, String.toList_inj.1 hf⟩, lacks, later, h⟩

/-- Reading the display clause blames the display or the end of the sentence. -/
theorem displayClause_blames (ts : List Token) :
    Blames (fun c => c = .display ∨ c = .terminator) (displayClause ts) :=
  ((takeWord_blames _ _ ts).mono fun _ => .inl).bind (displayFields_blames true false)

/-- Reading the display clause blames the end of the sentence if the last field stands without a
mark. -/
theorem rejects_displayClause_iff :
    Rejects .terminator (displayClause ts) ↔ ∃ lacks, LooseDisplay lacks ts := by
  have hshow : ¬ Rejects .terminator (takeWord .display "show" ts) :=
    (takeWord_blames _ _ ts).not_rejects (by decide)
  rw [displayClause, rejects_bind_iff, or_iff_right hshow]
  constructor
  · rintro ⟨left, htake, h⟩
    obtain ⟨t, rfl, ht⟩ := takeWord_tokens.1 htake
    obtain ⟨lacks, fields, hloose⟩ := rejects_displayFields_iff.1 h
    exact ⟨lacks, fields, _, by rw [List.map_cons, ht], hloose⟩
  · rintro ⟨lacks, fields, words, hwords, hloose⟩
    obtain ⟨t, left, rfl, ht, rfl⟩ := List.map_eq_cons_iff.1 hwords
    exact ⟨left, takeWord_tokens.2 ⟨t, rfl, ht⟩,
      rejects_displayFields_iff.2 ⟨lacks, fields, hloose⟩⟩

/-- A display clause without its full stop is not read. -/
theorem LooseDisplay.not_ok {lacks : Bool} (h : LooseDisplay lacks ts)
    (x : (List Field × Bool) × List Token) : displayClause ts ≠ .ok x :=
  (rejects_displayClause_iff.2 ⟨lacks, h⟩).not_ok x

/-- A display clause without its full stop either lacks its `and` or does not. -/
theorem LooseDisplay.lacks_unique {lacks lacks' : Bool} (h : LooseDisplay lacks ts)
    (h' : LooseDisplay lacks' ts) : lacks = lacks' := by
  obtain ⟨fields, words, hwords, hloose⟩ := h
  obtain ⟨fields', words', hwords', hloose'⟩ := h'
  obtain ⟨-, rfl⟩ := List.cons.inj (hwords.symm.trans hwords')
  exact hloose.lacks_unique hloose'

end Display

/-! ## The order -/

section Order

variable {f : Field}

/-- The tokens of an order clause that lacks its full stop. -/
def LooseOrder (f : Field) (ts : List Token) : Prop :=
  ts.map Token.chars = wordsOf "sort in ascending order by" ++ [f.name.toList]

/-- The tokens of an order clause, perhaps without its full stop. -/
def Sorts (f : Field) (ts : List Token) : Prop :=
  LooseOrder f ts ∨ ∃ ts', orderClause ts = .ok (f, ts')

/-- The tokens of an order clause that is hidden by how the text ends: the full stop is missing, or
something follows it. -/
def HiddenSort (f : Field) (ts : List Token) : Prop :=
  LooseOrder f ts ∨ ∃ ts', orderClause ts = .ok (f, ts') ∧ ts' ≠ []

/-- Reading the order clause blames the order or the end of the sentence. -/
theorem orderClause_blames (ts : List Token) :
    Blames (fun c => c = .order ∨ c = .terminator) (orderClause ts) := by
  refine ((takeWords_blames _ _ ts).mono fun _ => .inl).bind fun ts => ?_
  cases ts with
  | nil => exact blames_error (.inl rfl)
  | cons t ts =>
    dsimp only
    refine Blames.bind ((fieldOf_blames _ _).mono fun _ => .inl) fun field => ?_
    split
    · exact blames_ok _
    · split
      · exact blames_error (.inr rfl)
      · exact blames_error (.inl rfl)

/-- The reader of the order blames the end of the sentence exactly when the text ends behind a field
without a mark. -/
theorem rejects_orderClause_iff :
    Rejects .terminator (orderClause ts) ↔ ∃ f, LooseOrder f ts := by
  have hwords : wordsOf "sort in ascending order by" =
      ["sort", "in", "ascending", "order", "by"].map String.toList := by decide
  have htake : ¬ Rejects .terminator
      (takeWords .order ["sort", "in", "ascending", "order", "by"] ts) :=
    (takeWords_blames _ _ ts).not_rejects (by decide)
  have hfield : ∀ word, ¬ Rejects .terminator (fieldOf .order word) := fun word =>
    (fieldOf_blames .order word).not_rejects (by decide)
  rw [orderClause, rejects_bind_iff, or_iff_right htake]
  constructor
  · rintro ⟨left, htake, h⟩
    obtain ⟨front, rfl, hfront⟩ := takeWords_tokens.1 htake
    cases left with
    | nil => exact absurd h (not_rejects_error (c := .order) rfl (by decide))
    | cons t left =>
      cases hsplit : t.splitMark with
      | mk word mark? =>
        simp only [hsplit, rejects_bind_iff, hfield, false_or, fieldOf_eq_ok_iff] at h
        obtain ⟨f, hf, h⟩ := h
        split at h
        · exact absurd h (not_rejects_ok _)
        · split at h
          · rename_i hend
            obtain ⟨rfl, hleft⟩ := hend
            obtain ⟨rfl, -⟩ := eq_of_splitMark_none hsplit
            refine ⟨f, ?_⟩
            rw [LooseOrder, hwords, List.isEmpty_iff.1 hleft, List.map_append, hfront,
              List.map_singleton, ← hf]
            rfl
          · exact absurd h (not_rejects_error (c := .order) rfl (by decide))
  · rintro ⟨f, h⟩
    rw [LooseOrder, hwords] at h
    obtain ⟨front, last, rfl, hfront, hlast⟩ := List.map_eq_append_iff.1 h
    obtain ⟨t, rfl, ht⟩ := List.map_eq_singleton_iff.1 hlast
    refine ⟨[t], takeWords_tokens.2 ⟨front, rfl, hfront⟩, ?_⟩
    cases hsplit : t.splitMark with
    | mk word mark? =>
      cases mark? with
      | some mark =>
        obtain ⟨hmark, hchars⟩ := chars_of_splitMark hsplit
        exact absurd (ht.symm.trans hchars) ((name_ne f).2 mark hmark _)
      | none =>
        obtain ⟨rfl, -⟩ := eq_of_splitMark_none hsplit
        have hname : fieldOf .order word.text = .ok f :=
          fieldOf_eq_ok_iff.2 (String.toList_inj.1 ht)
        simp only [hsplit, hname]
        exact rejects_error_iff.2 rfl

/-- An order clause without its full stop is not read. -/
theorem LooseOrder.not_ok (h : LooseOrder f ts) (x : Field × List Token) :
    orderClause ts ≠ .ok x :=
  (rejects_orderClause_iff.2 ⟨f, h⟩).not_ok x

/-- An order clause without its full stop names one field. -/
theorem LooseOrder.unique {f' : Field} (h : LooseOrder f ts) (h' : LooseOrder f' ts) : f = f' := by
  have hnames := List.append_cancel_left (h.symm.trans h')
  rw [List.singleton_inj, String.toList_inj] at hnames
  have hfield : fieldOf .order f.name = .ok f := fieldOf_eq_ok_iff.2 rfl
  rw [fieldOf_eq_ok_iff.2 hnames] at hfield
  exact (Except.ok.inj hfield).symm

/-- An order clause names one field. -/
theorem Sorts.unique {f' : Field} (h : Sorts f ts) (h' : Sorts f' ts) : f = f' := by
  rcases h with h | ⟨left, h⟩
  · rcases h' with h' | ⟨left, h'⟩
    · exact h.unique h'
    · exact absurd h' (h.not_ok _)
  · rcases h' with h' | ⟨left', h'⟩
    · exact absurd h (h'.not_ok _)
    · rw [h] at h'
      exact (Prod.mk.inj (Except.ok.inj h')).1

/-- An order clause that is hidden is one. -/
theorem HiddenSort.sorts (h : HiddenSort f ts) : Sorts f ts := by
  apply h.imp_right
  rintro ⟨left, hread, -⟩
  exact ⟨left, hread⟩

end Order

end Sentence

end CourseQuery
