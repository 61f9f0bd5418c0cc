import CourseQuery.Proofs.Execution.Meaning
import CourseQuery.Proofs.Filter.Groups
import CourseQuery.Proofs.Sentence.Writing

/-!
# A condition and its negation

Each relation has a phrase and a negated phrase. The two phrases differ in more than the word `not`,
and the negation of an order between numbers is another comparison; still the negated phrase accepts
the same literals, and it selects the records that the phrase itself leaves out. Only NaN would be
left out by both, and neither a record of a dataset nor a literal is one.
-/

set_option autoImplicit false

namespace CourseQuery

/-! ## The complement of a predicate -/

/-- Of two numbers one is at most the other if the other is not less. -/
theorem Binary64.atMost_eq_not_less {x y : Binary64} (hx : x ≠ .nan) (hy : y ≠ .nan) :
    x.atMost y = !y.less x := by
  obtain ⟨j, hj⟩ := Execution.rank_of_ne_nan hx
  obtain ⟨k, hk⟩ := Execution.rank_of_ne_nan hy
  simp only [atMost, less, hj, hk]
  rw [← decide_not, decide_eq_decide]
  omega

/-- A negated relation of numbers holds when the relation does not. -/
theorem NumberRelation.holds_not {relation : NumberRelation} {negated : Bool} {x b : Binary64}
    (hx : x ≠ .nan) (hb : b ≠ .nan) :
    relation.holds (!negated) x b = !relation.holds negated x b := by
  have hxb := Binary64.atMost_eq_not_less hx hb
  have hbx := Binary64.atMost_eq_not_less hb hx
  cases relation <;> cases negated <;> simp [holds, hxb, hbx]

/-- A negated relation of texts holds when the relation does not. -/
theorem TextRelation.holds_not (relation : TextRelation) (negated : Bool) (s t : String) :
    relation.holds (!negated) s t = !relation.holds negated s t := by
  cases negated <;> simp [holds]

/-- The condition with the negated phrase, or with the phrase itself if it is negated. -/
def Condition.negate : Condition → Condition
  | .number relation negated bound => .number relation (!negated) bound
  | .text relation negated literal => .text relation (!negated) literal

/-- No bound is a NaN. -/
def Condition.NoNan : Condition → Prop
  | .number _ _ bound => bound ≠ .nan
  | .text .. => True

/-- The predicate with the negated condition. -/
def Predicate.negate (p : Predicate) : Predicate :=
  ⟨p.field, p.condition.negate⟩

/-- A negated predicate has the opposite result. -/
theorem Predicate.test_negate {p : Predicate} {r : Record} {holds : Bool}
    (hp : p.condition.NoNan) (hr : r.NoNan) (h : p.test r = .ok holds) :
    p.negate.test r = .ok (!holds) := by
  obtain ⟨f, condition⟩ := p
  unfold test at h
  dsimp only at h
  split at h
  · contradiction
  · rename_i relation negated bound x hx
    have hnan : x ≠ .nan := by
      rintro rfl
      exact hr f hx
    rw [← Except.ok.inj h, ← NumberRelation.holds_not hnan hp]
    simp only [negate, Condition.negate, test, hx]
  · rename_i relation negated literal s hs
    rw [← Except.ok.inj h, ← TextRelation.holds_not]
    simp only [negate, Condition.negate, test, hs]
  · contradiction

namespace Execution

/-- Two filters split records: each selects some of them in order, no record is selected by both,
and together they select all. -/
def Splits (a b : Filter) (records : List Record) : Prop :=
  ∃ rows others, select a records = .ok rows ∧ select b records = .ok others ∧
    rows.Sublist (rowsFrom 0 records) ∧ others.Sublist (rowsFrom 0 records) ∧
    rows.Disjoint others ∧ (rows ++ others).Perm (rowsFrom 0 records)

/-- A predicate and its negation split complete records. -/
theorem splits_negate {p : Predicate} (htyped : p.wellTyped = true) (hbound : p.condition.NoNan)
    {records : List Record} (hcomplete : ∀ r ∈ records, r.Complete)
    (hnan : ∀ r ∈ records, r.NoNan) : Splits (.atom p) (.atom p.negate) records := by
  have htest : ∀ r ∈ records, ∃ holds, p.test r = .ok holds ∧ p.negate.test r = .ok (!holds) := by
    intro r hr
    obtain ⟨holds, htest⟩ := Predicate.test_of_complete htyped (hcomplete r hr)
    exact ⟨holds, htest, Predicate.test_negate hbound (hnan r hr) htest⟩
  have hkeeps : (rowsFrom 0 records).filter (keeps (.atom p.negate)) =
      (rowsFrom 0 records).filter fun row => !keeps (.atom p) row := by
    apply List.filter_congr
    intro row hrow
    obtain ⟨holds, hp, hnegate⟩ :=
      htest row.record (List.mem_of_getElem? (mem_rowsFrom_zero.1 hrow))
    simp only [keeps, Filter.test, hp, hnegate]
  refine ⟨_, _, select_eq_filter fun r hr => ?_, select_eq_filter fun r hr => ?_,
    List.filter_sublist, List.filter_sublist, ?_, ?_⟩
  · exact (htest r hr).imp fun _ h => h.1
  · exact (htest r hr).elim fun holds h => ⟨!holds, h.2⟩
  · rw [hkeeps]
    intro row hrow hother
    have hkept := (List.mem_filter.1 hrow).2
    have hdropped := (List.mem_filter.1 hother).2
    rw [hkept] at hdropped
    contradiction
  · rw [hkeeps]
    exact List.filter_append_perm _ _

end Execution

/-! ## The phrases of an operator -/

open Sentence
open Text.Utf8 (size)

/-- A relation between the cells of a kind and literals. -/
inductive Operator : CellKind → Type where
  | number (relation : NumberRelation) : Operator .number
  | text (relation : TextRelation) : Operator .text

namespace Operator

variable {kind : CellKind}

/-- The phrase of an operator or of its negation. -/
def phrase : Operator kind → (negated : Bool) → String
  | number relation, negated => relation.phrase negated
  | text relation, negated => relation.phrase negated

/-- A condition compares by an operator, or by its negation, with what a lexeme denotes. -/
def Compares : Operator kind → (negated : Bool) → Condition → List Char → Prop
  | number relation, negated, condition, lexeme =>
    ∃ x, condition = .number relation negated x ∧ Numeral.Plain lexeme x
  | text relation, negated, condition, lexeme =>
    ∃ body s, condition = .text relation negated (String.ofList s) ∧ Body body s ∧
      lexeme = quoted body

variable {op : Operator kind} {negated : Bool} {condition : Condition} {lexeme : List Char}

/-- A condition is of the kind of its operation. -/
theorem Compares.kind_eq (h : op.Compares negated condition lexeme) : condition.kind = kind := by
  cases op with
  | number relation =>
    obtain ⟨x, rfl, -⟩ := h
    rfl
  | text relation =>
    obtain ⟨body, s, rfl, -, -⟩ := h
    rfl

/-- A condition that a literal spells does not compare with NaN. -/
theorem Compares.noNan (h : op.Compares negated condition lexeme) : condition.NoNan := by
  cases op with
  | number relation =>
    obtain ⟨x, rfl, hplain⟩ := h
    cases hplain <;> exact nofun
  | text relation =>
    obtain ⟨body, s, rfl, -, -⟩ := h
    trivial

/-- An operator and its negation take the same literals. -/
theorem Compares.negate (h : op.Compares negated condition lexeme) :
    op.Compares (!negated) condition.negate lexeme := by
  cases op with
  | number relation =>
    obtain ⟨x, rfl, hplain⟩ := h
    exact ⟨x, rfl, hplain⟩
  | text relation =>
    obtain ⟨body, s, rfl, hbody, hlexeme⟩ := h
    exact ⟨body, s, rfl, hbody, hlexeme⟩

/-- The phrase `is` is not a negated one. -/
theorem eq_false_of_phrase (h : op.phrase negated = "is") : negated = false := by
  cases negated with
  | false => rfl
  | true =>
    cases op with
    | number relation => cases relation <;> exact absurd h (by decide)
    | text relation => cases relation <;> exact absurd h (by decide)

/-- The condition of a field that compares by an operator with a literal, as a sentence states
it. -/
def stated (f : Field) (op : Operator f.kind) (negated : Bool) (literal : String) : String :=
  f.name ++ " " ++ op.phrase negated ++ " " ++ literal

end Operator

namespace FilterClause

variable {f : Field} {op : Operator f.kind} {negated : Bool} {source literal : String} {e : Nat}
  {s rest : List Char} {p : Predicate} {ts : List Token}

/-- A condition whose phrase stands in a text is read with what the literal after it denotes. -/
theorem condition_of_phrase (hs : Within source e s)
    (hphrase : Takes (wordsOf (op.phrase negated)) s rest)
    (hnot : op.phrase negated = "is" → ∀ mid, word? rest ≠ some ("not".toList, mid))
    {c : Condition} :
    condition source f.kind (tokensTo e s) = .ok (c, ts) ↔
      ∃ lexeme mid, op.Compares negated c lexeme ∧ Takes [lexeme] rest mid ∧
        ts = tokensTo e mid := by
  have hrest := hs.of_suffix hphrase.suffix
  generalize f.kind = kind at op
  cases op with
  | number relation =>
    have hop : numberOperator (tokensTo e s) = .ok ((relation, negated), tokensTo e rest) :=
      (numberOperator_eq_ok_iff hs.size_le).2 ⟨rest, hphrase, rfl⟩
    constructor
    · intro h
      obtain ⟨⟨phrase, _⟩, hread, h⟩ := bind_eq_ok_iff.1 h
      obtain ⟨rfl, rfl⟩ := Prod.mk.inj (Except.ok.inj (hop.symm.trans hread))
      obtain ⟨⟨x, _⟩, hx, h⟩ := bind_eq_ok_iff.1 h
      obtain ⟨word, mid, hplain, hmid, rfl⟩ := (bound_eq_ok_iff hrest.size_le).1 hx
      obtain ⟨rfl, rfl⟩ := Prod.mk.inj (Except.ok.inj h)
      exact ⟨word, mid, ⟨x, rfl, hplain⟩, hmid, rfl⟩
    · rintro ⟨lexeme, mid, ⟨x, rfl, hplain⟩, hmid, rfl⟩
      have hbound := (bound_eq_ok_iff hrest.size_le).2 ⟨lexeme, mid, hplain, hmid, rfl⟩
      exact bind_eq_ok_iff.2 ⟨_, hop, bind_eq_ok_iff.2 ⟨_, hbound, rfl⟩⟩
  | text relation =>
    have hop : textOperator (tokensTo e s) = .ok ((relation, negated), tokensTo e rest) := by
      refine (textOperator_eq_ok_iff hs.size_le).2 ⟨rest, hphrase, ?_, rfl⟩
      rintro rfl rfl
      exact hnot rfl
    constructor
    · intro h
      obtain ⟨⟨phrase, _⟩, hread, h⟩ := bind_eq_ok_iff.1 h
      obtain ⟨rfl, rfl⟩ := Prod.mk.inj (Except.ok.inj (hop.symm.trans hread))
      obtain ⟨⟨text, _⟩, htext, h⟩ := bind_eq_ok_iff.1 h
      obtain ⟨body, t, mid, hbody, rfl, hmid, rfl⟩ := (literal_eq_ok_iff hrest).1 htext
      obtain ⟨rfl, rfl⟩ := Prod.mk.inj (Except.ok.inj h)
      exact ⟨quoted body, mid, ⟨body, t, rfl, hbody, rfl⟩, hmid, rfl⟩
    · rintro ⟨lexeme, mid, ⟨body, t, rfl, hbody, rfl⟩, hmid, rfl⟩
      have hliteral := (literal_eq_ok_iff hrest).2 ⟨body, t, mid, hbody, rfl, hmid, rfl⟩
      exact bind_eq_ok_iff.2 ⟨_, hop, bind_eq_ok_iff.2 ⟨_, hliteral, rfl⟩⟩

/-- A predicate is read behind a field and a phrase if a lexeme of its bound follows. -/
theorem predicate_of_phrase (hs : Within source e s)
    (hphrase : Takes (f.name.toList :: wordsOf (op.phrase negated)) s rest)
    (hnot : op.phrase negated = "is" → ∀ mid, word? rest ≠ some ("not".toList, mid)) :
    predicate source (tokensTo e s) = .ok (p, ts) ↔
      ∃ lexeme mid, p.field = f ∧ op.Compares negated p.condition lexeme ∧
        Takes [lexeme] rest mid ∧ ts = tokensTo e mid := by
  obtain ⟨mid, hname, hphrase⟩ := (takes_word (name_isWord f)).1 hphrase
  have hcondition := fun c ts =>
    @condition_of_phrase f op negated source e mid rest ts (hs.of_word? hname) hphrase hnot c
  rw [tokensTo_some hs.size_le hname, predicate]
  simp only [String.ofList_toList, Field.ofName?_eq_some_iff.2 rfl]
  rw [map_eq_ok_iff]
  constructor
  · rintro ⟨⟨c, _⟩, hc, h⟩
    obtain ⟨rfl, rfl⟩ := Prod.mk.inj h
    obtain ⟨lexeme, mid, hcompares, hmid, hts⟩ := (hcondition _ _).1 hc
    exact ⟨lexeme, mid, rfl, hcompares, hmid, hts⟩
  · rintro ⟨lexeme, mid, rfl, hcompares, hmid, hts⟩
    exact ⟨(p.condition, ts), (hcondition _ _).2 ⟨lexeme, mid, hcompares, hmid, hts⟩, rfl⟩

/-- The filter of a clause that stands alone. -/
def ofText (text : String) : Except Rejection Filter :=
  filter text (tokenize text)

/-- A stated condition is the first predicate of the groups that are read. -/
theorem groups_of_stated
    (hnot : op.phrase false = "is" → firstText (tokenize literal) ≠ some "not")
    {gs : List (List Predicate)} :
    groups (op.stated f negated literal) (tokenize (op.stated f negated literal)) = .ok gs ↔
      ∃ p lexeme mid, p.field = f ∧ op.Compares negated p.condition lexeme ∧
        Takes [lexeme] (' ' :: literal.toList) mid ∧ Extends [p] gs mid := by
  have hs := within_source (op.stated f negated literal)
  have hblank : Gap [' '] := by decide
  have htext : (op.stated f negated literal).toList =
      f.name.toList ++ ' ' :: (op.phrase negated).toList ++ ' ' :: literal.toList := by
    simp [Operator.stated]
  have hphrase : Takes (f.name.toList :: wordsOf (op.phrase negated))
      (op.stated f negated literal).toList (' ' :: literal.toList) := by
    have hspells : Spells (f.name.toList ++ ' ' :: (op.phrase negated).toList)
        (f.name.toList :: wordsOf (op.phrase negated)) := .cons _ (spells_wordsOf _)
    rw [htext]
    exact (hspells.takes gap_nil).append_boundary (boundary_cons.2 (gap_cons.1 hblank).1)
  have hnot' : op.phrase negated = "is" →
      ∀ mid, word? (' ' :: literal.toList) ≠ some ("not".toList, mid) := by
    intro his mid hmid
    obtain rfl := Operator.eq_false_of_phrase his
    apply hnot his
    have hword : word? literal.toList = some ("not".toList, mid) := by
      rw [← hmid, word?, word?]
      rfl
    rw [tokenize_eq, firstText_tokensTo (Nat.le_refl _), hword]
    exact congrArg some String.ofList_toList
  rw [groups_eq_ok_iff_predicate, tokenize_eq]
  constructor
  · rintro ⟨p, _, hp, hmore⟩
    obtain ⟨lexeme, mid, hfield, hcompares, hmid, rfl⟩ :=
      (predicate_of_phrase hs hphrase hnot').1 hp
    have hrest := (hs.of_suffix hphrase.suffix).of_suffix hmid.suffix
    exact ⟨p, lexeme, mid, hfield, hcompares, hmid, (moreGroups_eq_ok_iff hrest).1 hmore⟩
  · rintro ⟨p, lexeme, mid, hfield, hcompares, hmid, hextends⟩
    have hrest := (hs.of_suffix hphrase.suffix).of_suffix hmid.suffix
    have hpredicate := (predicate_of_phrase hs hphrase hnot').2
      ⟨lexeme, mid, hfield, hcompares, hmid, rfl⟩
    exact ⟨p, _, hpredicate, (moreGroups_eq_ok_iff hrest).2 hextends⟩

/-- The groups with a stated condition are those with its negation, but for the first predicate. -/
theorem groups_of_stated_not
    (hnot : op.phrase false = "is" → firstText (tokenize literal) ≠ some "not")
    {gs : List (List Predicate)}
    (h : groups (op.stated f negated literal) (tokenize (op.stated f negated literal)) = .ok gs) :
    ∃ p group later, gs = (p :: group) :: later ∧ p.wellTyped = true ∧ p.condition.NoNan ∧
      groups (op.stated f (!negated) literal) (tokenize (op.stated f (!negated) literal)) =
        .ok ((p.negate :: group) :: later) := by
  obtain ⟨p, lexeme, mid, rfl, hcompares, hmid, hextends⟩ := (groups_of_stated hnot).1 h
  obtain ⟨group, later, lexemes, rest, hgs, hmore⟩ := hextends
  refine ⟨p, group, later, hgs, decide_eq_true hcompares.kind_eq, hcompares.noNan, ?_⟩
  apply (groups_of_stated hnot).2
  exact ⟨p.negate, lexeme, mid, rfl, hcompares.negate, hmid, group, later, lexemes, rest, rfl,
    hmore⟩

/-- If a phrase makes a filter with a literal, the negated phrase makes one too. -/
theorem ofText_stated_not
    (hnot : op.phrase false = "is" → firstText (tokenize literal) ≠ some "not")
    {filter : Filter} (h : ofText (op.stated f negated literal) = .ok filter) :
    ∃ other, ofText (op.stated f (!negated) literal) = .ok other := by
  obtain ⟨gs, hgs, -⟩ := map_eq_ok_iff.1 h
  obtain ⟨p, group, later, -, -, -, hother⟩ := groups_of_stated_not hnot hgs
  exact ⟨_, map_eq_ok_iff.2 ⟨_, hother, rfl⟩⟩

/-- The filter of a negated phrase is the negated predicate. -/
theorem ofText_stated_atom
    (hnot : op.phrase false = "is" → firstText (tokenize literal) ≠ some "not")
    (h : ofText (op.stated f negated literal) = .ok (.atom p)) :
    p.wellTyped = true ∧ p.condition.NoNan ∧
      ofText (op.stated f (!negated) literal) = .ok (.atom p.negate) := by
  obtain ⟨gs, hgs, hatom⟩ := map_eq_ok_iff.1 h
  have hconditions := hgs
  rw [tokenize_eq] at hconditions
  obtain ⟨lexemes, rest, hconditions, -⟩ := (groups_eq_ok_iff (within_source _)).1 hconditions
  have hgroups := Filter.groups_ofGroups hconditions.ne_nil.1 hconditions.ne_nil.2
  rw [hatom] at hgroups
  obtain ⟨q, group, later, rfl, htyped, hbound, hother⟩ := groups_of_stated_not hnot hgs
  -- a single predicate has itself as its only group
  obtain ⟨hfirst, rfl⟩ := List.cons.inj hgroups
  obtain ⟨rfl, rfl⟩ := List.cons.inj hfirst
  exact ⟨htyped, hbound, map_eq_ok_iff.2 ⟨_, hother, rfl⟩⟩

/-- A condition is accepted exactly when its negation is, whatever stands behind their phrases; only
`is` must not be followed by `not`, which would make it the other phrase. Over complete records
without NaN the two conditions split the records. -/
theorem negation_selects_complement (f : Field) (op : Operator f.kind) (literal : String)
    (hnot : op.phrase false = "is" → firstText (tokenize literal) ≠ some "not") :
    ((∃ filter, ofText (op.stated f false literal) = .ok filter) ↔
      ∃ filter, ofText (op.stated f true literal) = .ok filter) ∧
    ∀ p, ofText (op.stated f false literal) = .ok (.atom p) →
      ofText (op.stated f true literal) = .ok (.atom p.negate) ∧
      ∀ records : List Record, (∀ r ∈ records, r.Complete) → (∀ r ∈ records, r.NoNan) →
        Execution.Splits (.atom p) (.atom p.negate) records := by
  refine ⟨⟨?_, ?_⟩, ?_⟩
  · rintro ⟨filter, h⟩
    have hother := ofText_stated_not hnot h
    exact hother
  · rintro ⟨filter, h⟩
    have hother := ofText_stated_not hnot h
    exact hother
  · intro p h
    obtain ⟨htyped, hbound, hother⟩ := ofText_stated_atom hnot h
    refine ⟨hother, ?_⟩
    intro records hcomplete hnan
    exact Execution.splits_negate htyped hbound hcomplete hnan

/-- A quoted text that begins with the word `not` is a literal like any other behind `is`. -/
theorem negation_selects_complement_is :
    firstText (tokenize "\"not x\"") ≠ some "not" ∧
      ofText "Title is not \"not x\"" = .ok (.atom ⟨.title, .text .is true "not x"⟩) ∧
      Execution.Splits (.atom ⟨.title, .text .is false "not x"⟩)
        (.atom ⟨.title, .text .is true "not x"⟩)
        [.uniform (.ofInt 1) "not x", .uniform (.ofInt 1) "x"] := by
  have hnot : firstText (tokenize "\"not x\"") ≠ some "not" := by decide +kernel
  have htext : Operator.stated .title (.text .is) true "\"not x\"" =
      "Title is not \"not x\"" := by decide
  have hread : ofText (Operator.stated .title (.text .is) false "\"not x\"") =
      .ok (.atom ⟨.title, .text .is false "not x"⟩) := eq_ok_of_toOption (by decide +kernel)
  have hrecords : ∀ r ∈ [Record.uniform (.ofInt 1) "not x", .uniform (.ofInt 1) "x"],
      r.Complete ∧ r.NoNan := by decide +kernel
  obtain ⟨hother, hsplits⟩ :=
    (negation_selects_complement .title (.text .is) "\"not x\"" fun _ => hnot).2 _ hread
  rw [htext] at hother
  exact ⟨hnot, hother, hsplits _ (fun r hr => (hrecords r hr).1) fun r hr => (hrecords r hr).2⟩

end FilterClause

end CourseQuery
