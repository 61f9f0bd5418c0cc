import CourseQuery.Proofs.Sentence.PhraseReading

/-!
# Reading conditions

A condition is a field, a phrase and a literal, and conditions are joined into groups.
`groups_eq_ok_iff` says that the reader of a filter clause accepts exactly the conditions of the
grammar and gives their groups. The induction is on the text that is left; its invariant `Extends`
is that the current group, last predicate first, is a front of the first group that is given.
-/

set_option autoImplicit false

namespace CourseQuery

/-- The names of the fields differ. -/
theorem Field.ofName?_eq_some_iff {name : String} {f : Field} :
    Field.ofName? name = some f ↔ name = f.name := by
  constructor
  · intro h
    have hname := List.find?_some (show all.find? (fun f : Field => f.name = name) = some f from h)
    exact (of_decide_eq_true hname).symm
  · rintro rfl
    cases f <;> decide

/-- Conditions make a group, and none of their groups is empty. -/
theorem Sentence.Conditions.ne_nil {stated : List (List Predicate)} {lexemes : List (List Char)}
    (h : Conditions stated lexemes) : stated ≠ [] ∧ ∀ group ∈ stated, group ≠ [] := by
  refine ⟨by cases h <;> simp, ?_⟩
  induction h with
  | atom => simp
  | and _ _ ih =>
    intro group hgroup
    rcases List.mem_cons.1 hgroup with rfl | hgroup
    · exact List.cons_ne_nil _ _
    · exact ih group (List.mem_cons_of_mem _ hgroup)
  | or _ _ ih => exact List.forall_mem_cons.2 ⟨List.cons_ne_nil _ _, ih⟩

namespace FilterClause

open Sentence
open Text.Utf8 (size)

variable {source : String} {e : Nat} {s rest : List Char} {ts : List Token}

/-- A numeric condition is a phrase and a numeral. -/
theorem numberCondition_eq_ok_iff (hs : size s ≤ e) {c : Condition} :
    numberCondition (tokensTo e s) = .ok (c, ts) ↔
      ∃ lexemes rest, Comparison .number c lexemes ∧ Takes lexemes s rest ∧
        ts = tokensTo e rest := by
  rw [numberCondition, bind_eq_ok_iff]
  constructor
  · rintro ⟨⟨⟨relation, negated⟩, _⟩, hop, h⟩
    obtain ⟨mid, hmid, rfl⟩ := (numberOperator_eq_ok_iff hs).1 hop
    obtain ⟨⟨x, _⟩, hx, h⟩ := bind_eq_ok_iff.1 h
    obtain ⟨word, rest, hplain, hrest, rfl⟩ := (bound_eq_ok_iff (hmid.size_le hs)).1 hx
    obtain ⟨rfl, rfl⟩ := Prod.mk.inj (Except.ok.inj h)
    exact ⟨_, rest, .number relation negated hplain, takes_append.2 ⟨mid, hmid, hrest⟩, rfl⟩
  · rintro ⟨lexemes, rest, hcomparison, htakes, rfl⟩
    cases hcomparison with
    | @number relation negated word x hplain =>
      obtain ⟨mid, hmid, hrest⟩ := takes_append.1 htakes
      refine ⟨_, (numberOperator_eq_ok_iff hs).2 ⟨mid, hmid, rfl⟩, bind_eq_ok_iff.2
        ⟨(x, tokensTo e rest), ?_, rfl⟩⟩
      exact (bound_eq_ok_iff (hmid.size_le hs)).2 ⟨word, rest, hplain, hrest, rfl⟩

/-- A textual condition is a phrase and a literal. A literal begins with a quote, so `is` and a
literal are never taken for the beginning of `is not`. -/
theorem textCondition_eq_ok_iff (hs : Within source e s) {c : Condition} :
    textCondition source (tokensTo e s) = .ok (c, ts) ↔
      ∃ lexemes rest, Comparison .text c lexemes ∧ Takes lexemes s rest ∧
        ts = tokensTo e rest := by
  rw [textCondition, bind_eq_ok_iff]
  constructor
  · rintro ⟨⟨⟨relation, negated⟩, _⟩, hop, h⟩
    obtain ⟨mid, hmid, -, rfl⟩ := (textOperator_eq_ok_iff hs.size_le).1 hop
    obtain ⟨⟨text, _⟩, htext, h⟩ := bind_eq_ok_iff.1 h
    obtain ⟨body, t, rest, hbody, rfl, hrest, rfl⟩ :=
      (literal_eq_ok_iff (hs.of_suffix hmid.suffix)).1 htext
    obtain ⟨rfl, rfl⟩ := Prod.mk.inj (Except.ok.inj h)
    exact ⟨_, rest, .text relation negated hbody, takes_append.2 ⟨mid, hmid, hrest⟩, rfl⟩
  · rintro ⟨lexemes, rest, hcomparison, htakes, rfl⟩
    cases hcomparison with
    | @text relation negated body t hbody =>
      obtain ⟨mid, hmid, hrest⟩ := takes_append.1 htakes
      have hnot : ∀ next, word? mid ≠ some ("not".toList, next) := by
        intro next hnext
        obtain ⟨gap, next', rfl, hgap, -⟩ := takes_cons.1 hrest
        exact absurd (head?_of_word? hgap (by decide) hnext) (by decide)
      refine ⟨_, (textOperator_eq_ok_iff hs.size_le).2 ⟨mid, hmid, fun _ _ => hnot, rfl⟩,
        bind_eq_ok_iff.2 ⟨(String.ofList t, tokensTo e rest), ?_, rfl⟩⟩
      exact (literal_eq_ok_iff (hs.of_suffix hmid.suffix)).2 ⟨body, t, rest, hbody, rfl, hrest, rfl⟩

/-- A condition of a kind is one of the grammar. -/
theorem condition_eq_ok_iff (hs : Within source e s) {kind : CellKind} {c : Condition} :
    condition source kind (tokensTo e s) = .ok (c, ts) ↔
      ∃ lexemes rest, Comparison kind c lexemes ∧ Takes lexemes s rest ∧
        ts = tokensTo e rest := by
  cases kind with
  | number => exact numberCondition_eq_ok_iff hs.size_le
  | text => exact textCondition_eq_ok_iff hs

/-- The name of a field is a word. -/
theorem name_isWord (f : Field) : IsWord f.name.toList := by
  cases f <;> decide

/-- A predicate is read exactly when an atom comes next. -/
theorem predicate_eq_ok_iff (hs : Within source e s) {p : Predicate} :
    predicate source (tokensTo e s) = .ok (p, ts) ↔
      ∃ lexemes rest, States p lexemes ∧ Takes lexemes s rest ∧ ts = tokensTo e rest := by
  constructor
  · intro h
    cases hword : word? s with
    | none =>
      rw [tokensTo_none hword] at h
      contradiction
    | some found =>
      obtain ⟨w, mid⟩ := found
      rw [tokensTo_some hs.size_le hword, predicate] at h
      split at h
      · contradiction
      · rename_i f hf
        obtain ⟨⟨c, _⟩, hc, h⟩ := map_eq_ok_iff.1 h
        obtain ⟨rfl, rfl⟩ := Prod.mk.inj h
        obtain ⟨lexemes, rest, hlexemes, htakes, rfl⟩ :=
          (condition_eq_ok_iff (hs.of_word? hword)).1 hc
        rw [Field.ofName?_eq_some_iff, ofList_eq_iff] at hf
        exact ⟨_, rest, .mk f hlexemes,
          (takes_word_of (name_isWord f) hword).2 ⟨hf, htakes⟩, rfl⟩
  · rintro ⟨lexemes, rest, hatom, htakes, rfl⟩
    cases hatom with
    | @mk f c lexemes hlexemes =>
      obtain ⟨mid, hword, hmid⟩ := (takes_word (name_isWord f)).1 htakes
      rw [tokensTo_some hs.size_le hword, predicate]
      simp only [String.ofList_toList, Field.ofName?_eq_some_iff.2 rfl]
      refine map_eq_ok_iff.2 ⟨(c, tokensTo e rest), ?_, rfl⟩
      exact (condition_eq_ok_iff (hs.of_word? hword)).2 ⟨lexemes, rest, hlexemes, hmid, rfl⟩

/-! ## Groups -/

/-- What may follow an atom: nothing, or `and` or `or` and more conditions. `group` are the further
predicates of the atom's group. -/
inductive Continues : List Predicate → List (List Predicate) → List (List Char) → Prop
  | stop : Continues [] [] []
  | and {group : List Predicate} {groups : List (List Predicate)} {lexemes : List (List Char)} :
      Conditions (group :: groups) lexemes → Continues group groups ("and".toList :: lexemes)
  | or {groups : List (List Predicate)} {lexemes : List (List Char)} :
      Conditions groups lexemes → Continues [] groups ("or".toList :: lexemes)

/-- Conditions are an atom and what follows it. -/
theorem conditions_iff {gs : List (List Predicate)} {lexemes : List (List Char)} :
    Conditions gs lexemes ↔
      ∃ p group groups first more, gs = (p :: group) :: groups ∧ States p first ∧
        Continues group groups more ∧ lexemes = first ++ more := by
  constructor
  · intro h
    cases h with
    | atom hatom => exact ⟨_, _, _, _, _, rfl, hatom, .stop, by simp⟩
    | and hatom hmore => exact ⟨_, _, _, _, _, rfl, hatom, .and hmore, rfl⟩
    | or hatom hmore => exact ⟨_, _, _, _, _, rfl, hatom, .or hmore, rfl⟩
  · rintro ⟨p, group, groups, first, more, rfl, hatom, hmore, rfl⟩
    cases hmore with
    | stop => simpa using Conditions.atom hatom
    | and hmore => exact .and hatom hmore
    | or hmore => exact .or hatom hmore

/-- Behind a predicate comes `and` with one more in its group, or `or` with the first of another
group. -/
theorem moreGroups_cons (group : List Predicate) (t : Token) (ts : List Token) :
    moreGroups source group (t :: ts) =
      if t.text = "and" then
        (predicate source ts).bind fun (p, rest) => moreGroups source (p :: group) rest
      else if t.text = "or" then
        (predicate source ts).bind fun (p, rest) =>
          (moreGroups source [p] rest).map (group.reverse :: ·)
      else .error (.invalidFilter (.connectiveExpected t.text) (some t.text)) := by
  rw [moreGroups]
  split
  · split <;> simp [*, Except.bind]
  · split
    · split <;> simp [*, Except.bind]
    · rfl

/-- The rest of a text extends the groups that were read so far to groups. `group` are the
predicates of the current group, last first. -/
def Extends (group : List Predicate) (gs : List (List Predicate)) (s : List Char) : Prop :=
  ∃ more groups lexemes rest, gs = (group.reverse ++ more) :: groups ∧
    Continues more groups lexemes ∧ Takes lexemes s rest ∧ Gap rest

section Extends

variable {p : Predicate} {group : List Predicate} {gs : List (List Predicate)}

/-- Conditions to the end of a text are an atom whose group the text after it extends. -/
theorem takes_conditions_iff :
    (∃ lexemes rest, Conditions gs lexemes ∧ Takes lexemes s rest ∧ Gap rest) ↔
      ∃ p first mid, States p first ∧ Takes first s mid ∧ Extends [p] gs mid := by
  constructor
  · rintro ⟨_, rest, hconditions, htakes, hrest⟩
    obtain ⟨p, group, groups, first, more, rfl, hatom, hmore, rfl⟩ :=
      conditions_iff.1 hconditions
    obtain ⟨mid, hmid, htakes⟩ := takes_append.1 htakes
    exact ⟨p, first, mid, hatom, hmid, group, groups, more, rest, rfl, hmore, htakes, hrest⟩
  · rintro ⟨p, first, mid, hatom, hmid, group, groups, more, rest, rfl, hmore, htakes, hrest⟩
    exact ⟨_, rest, conditions_iff.2 ⟨p, group, groups, first, more, rfl, hatom, hmore, rfl⟩,
      takes_append.2 ⟨mid, hmid, htakes⟩, hrest⟩

/-- A predicate in front of the current group is extended as it is on its own. -/
theorem extends_cons :
    Extends (p :: group) gs s ↔
      ∃ more groups, gs = (group.reverse ++ more) :: groups ∧ Extends [p] (more :: groups) s := by
  constructor
  · rintro ⟨more, groups, lexemes, rest, rfl, hmore, htakes, hrest⟩
    exact ⟨p :: more, groups, by simp, more, groups, lexemes, rest, rfl, hmore, htakes, hrest⟩
  · rintro ⟨_, groups, rfl, more, _, lexemes, rest, heq, hmore, htakes, hrest⟩
    obtain ⟨rfl, rfl⟩ := List.cons.inj heq
    exact ⟨more, groups, lexemes, rest, by simp, hmore, htakes, hrest⟩

/-- Without a further word no group goes on. -/
theorem extends_of_word?_eq_none (hword : word? s = none) :
    Extends group gs s ↔ gs = [group.reverse] := by
  constructor
  · rintro ⟨more, groups, lexemes, rest, rfl, hmore, htakes, -⟩
    cases hmore with
    | stop => simp
    | and _ | or _ =>
      obtain ⟨mid, hmid, -⟩ := (takes_word (by decide)).1 htakes
      exact absurd (hword.symm.trans hmid) (by simp)
  · rintro rfl
    exact ⟨[], [], [], s, by simp, .stop, .nil s, word?_eq_none_iff.1 hword⟩

/-- A text with a word extends the groups by an atom after `and` or `or`. -/
theorem extends_of_word?_eq_some {w s₁ : List Char} (hword : word? s = some (w, s₁)) :
    Extends group gs s ↔
      (w = "and".toList ∧
        ∃ p first mid, States p first ∧ Takes first s₁ mid ∧ Extends (p :: group) gs mid) ∨
      (w = "or".toList ∧
        ∃ p first mid, States p first ∧ Takes first s₁ mid ∧
          ∃ gs', gs = group.reverse :: gs' ∧ Extends [p] gs' mid) := by
  constructor
  · rintro ⟨more, groups, lexemes, rest, rfl, hmore, htakes, hrest⟩
    cases hmore with
    | stop =>
      rw [takes_nil.1 htakes, ← word?_eq_none_iff, hword] at hrest
      contradiction
    | and hconditions =>
      obtain ⟨hw, htakes⟩ := (takes_word_of (by decide) hword).1 htakes
      obtain ⟨p, first, mid, hatom, hmid, hextends⟩ :=
        takes_conditions_iff.1 ⟨_, rest, hconditions, htakes, hrest⟩
      exact .inl ⟨hw, p, first, mid, hatom, hmid, extends_cons.2 ⟨more, groups, rfl, hextends⟩⟩
    | or hconditions =>
      obtain ⟨hw, htakes⟩ := (takes_word_of (by decide) hword).1 htakes
      obtain ⟨p, first, mid, hatom, hmid, hextends⟩ :=
        takes_conditions_iff.1 ⟨_, rest, hconditions, htakes, hrest⟩
      exact .inr ⟨hw, p, first, mid, hatom, hmid, groups, by simp, hextends⟩
  · rintro (⟨hw, p, first, mid, hatom, hmid, hextends⟩ |
      ⟨hw, p, first, mid, hatom, hmid, gs', rfl, hextends⟩)
    · obtain ⟨more, groups, rfl, halone⟩ := extends_cons.1 hextends
      obtain ⟨lexemes, rest, hconditions, htakes, hrest⟩ :=
        takes_conditions_iff.2 ⟨p, first, mid, hatom, hmid, halone⟩
      exact ⟨more, groups, _, rest, rfl, .and hconditions,
        (takes_word_of (by decide) hword).2 ⟨hw, htakes⟩, hrest⟩
    · obtain ⟨lexemes, rest, hconditions, htakes, hrest⟩ :=
        takes_conditions_iff.2 ⟨p, first, mid, hatom, hmid, hextends⟩
      exact ⟨[], gs', _, rest, by simp, .or hconditions,
        (takes_word_of (by decide) hword).2 ⟨hw, htakes⟩, hrest⟩

/-- The conditions after an atom are read to their end, as the rest of the text extends the
groups. -/
theorem moreGroups_eq_ok_iff (hs : Within source e s) :
    moreGroups source group (tokensTo e s) = .ok gs ↔ Extends group gs s := by
  induction hn : s.length using Nat.strongRecOn generalizing s group gs with
  | ind n ih =>
    cases hword : word? s with
    | none =>
      rw [tokensTo_none hword, moreGroups, Except.ok.injEq, extends_of_word?_eq_none hword, eq_comm]
    | some found =>
      obtain ⟨w, s₁⟩ := found
      have hs₁ := hs.of_word? hword
      have hlength := word?_length hword
      -- what an atom leaves of the text is shorter, so the invariant holds there
      have hlater : ∀ {first mid}, Takes first s₁ mid → ∀ {group gs},
          moreGroups source group (tokensTo e mid) = .ok gs ↔ Extends group gs mid := by
        intro first mid hmid group gs
        have hle := hmid.suffix.length_le
        exact ih mid.length (by omega) (hs₁.of_suffix hmid.suffix) rfl
      rw [tokensTo_some hs.size_le hword, moreGroups_cons, extends_of_word?_eq_some hword]
      simp only [ofList_eq_iff]
      constructor
      · intro h
        split at h
        · rename_i hw
          obtain ⟨⟨p, _⟩, hp, h⟩ := bind_eq_ok_iff.1 h
          obtain ⟨first, mid, hatom, hmid, rfl⟩ := (predicate_eq_ok_iff hs₁).1 hp
          exact .inl ⟨hw, p, first, mid, hatom, hmid, (hlater hmid).1 h⟩
        · split at h
          · rename_i hw
            obtain ⟨⟨p, _⟩, hp, h⟩ := bind_eq_ok_iff.1 h
            obtain ⟨first, mid, hatom, hmid, rfl⟩ := (predicate_eq_ok_iff hs₁).1 hp
            obtain ⟨gs', hgs', rfl⟩ := map_eq_ok_iff.1 h
            exact .inr ⟨hw, p, first, mid, hatom, hmid, gs', rfl, (hlater hmid).1 hgs'⟩
          · contradiction
      · rintro (⟨rfl, p, first, mid, hatom, hmid, hextends⟩ |
          ⟨rfl, p, first, mid, hatom, hmid, gs', rfl, hextends⟩)
        · have hp := (predicate_eq_ok_iff hs₁).2 ⟨first, mid, hatom, hmid, rfl⟩
          rw [if_pos rfl]
          exact bind_eq_ok_iff.2 ⟨(p, tokensTo e mid), hp, (hlater hmid).2 hextends⟩
        · have hp := (predicate_eq_ok_iff hs₁).2 ⟨first, mid, hatom, hmid, rfl⟩
          rw [if_neg (by decide), if_pos rfl]
          exact bind_eq_ok_iff.2 ⟨(p, tokensTo e mid), hp,
            map_eq_ok_iff.2 ⟨gs', (hlater hmid).2 hextends, rfl⟩⟩

/-- A filter begins with a predicate. -/
theorem groups_cons (t : Token) (ts : List Token) :
    groups source (t :: ts) =
      (predicate source (t :: ts)).bind fun (p, rest) => moreGroups source [p] rest := by
  unfold groups
  rw [List.isEmpty_cons, if_neg Bool.false_ne_true]
  cases predicate source (t :: ts) with
  | error rejection => rfl
  | ok found => rfl

/-- Groups are read as a first predicate and what follows it. -/
theorem groups_eq_ok_iff_predicate :
    groups source ts = .ok gs ↔
      ∃ p rest, predicate source ts = .ok (p, rest) ∧ moreGroups source [p] rest = .ok gs := by
  cases ts with
  | nil => simp [groups, predicate]
  | cons t ts =>
    rw [groups_cons]
    exact bind_eq_ok_iff.trans Prod.exists

/-- The reader of a filter clause accepts exactly the conditions of the grammar. -/
theorem groups_eq_ok_iff (hs : Within source e s) :
    groups source (tokensTo e s) = .ok gs ↔
      ∃ lexemes rest, Conditions gs lexemes ∧ Takes lexemes s rest ∧ Gap rest := by
  rw [groups_eq_ok_iff_predicate, takes_conditions_iff]
  constructor
  · rintro ⟨p, _, hp, h⟩
    obtain ⟨first, mid, hatom, hmid, rfl⟩ := (predicate_eq_ok_iff hs).1 hp
    exact ⟨p, first, mid, hatom, hmid, (moreGroups_eq_ok_iff (hs.of_suffix hmid.suffix)).1 h⟩
  · rintro ⟨p, first, mid, hatom, hmid, hextends⟩
    exact ⟨p, _, (predicate_eq_ok_iff hs).2 ⟨first, mid, hatom, hmid, rfl⟩,
      (moreGroups_eq_ok_iff (hs.of_suffix hmid.suffix)).2 hextends⟩

end Extends

end FilterClause

end CourseQuery
