import CourseQuery.Sentence.Literal
import CourseQuery.Sentence.Token
import CourseQuery.Number.Numeral

/-!
# The filter clause

The tokens between `whose` and the closing `;` are conditions joined by `and` and `or`, where `or`
begins a new group. A condition is the name of a field, the phrase of a relation for its kind, and
a literal: one word for a number, and for a text the words from one that begins with a quote up to
the first that closes it, with the blanks of the sentence between them. Each reader takes tokens
from the front and gives back the rest, which is shorter; that is why reading ends.
-/

set_option autoImplicit false

namespace CourseQuery.FilterClause

/-- Takes a given word. -/
def takeWord (word : String) : List Token → Except Rejection (List Token)
  | [] => .error (.invalidFilter (.wordExpected word none) none)
  | t :: ts =>
    if t.text = word then .ok ts
    else .error (.invalidFilter (.wordExpected word (some t.text)) (some t.text))

/-- Takes the word `not` if it comes next. -/
def takeNot : List Token → Bool × List Token
  | [] => (false, [])
  | t :: ts => if t.text = "not" then (true, ts) else (false, t :: ts)

/-- The text of the first token. -/
def firstText (ts : List Token) : Option String :=
  ts.head?.map Token.text

/-- The relation that a word of a numeric phrase names. -/
def numberRelation? (word : String) : Option NumberRelation :=
  if word = "equal" then some .equal
  else if word = "greater" then some .greater
  else if word = "less" then some .less
  else none

/-- The word that ends the phrase of a numeric relation. -/
def joiner : NumberRelation → String
  | .equal => "to"
  | .greater | .less => "than"

/-- Reads `is [not] equal to`, `is [not] greater than` or `is [not] less than`. -/
def numberOperator (ts : List Token) :
    Except Rejection ((NumberRelation × Bool) × List Token) := do
  let ts ← takeWord "is" ts
  let (negated, ts) := takeNot ts
  match (firstText ts).bind numberRelation? with
  | none => .error (.invalidFilter (.relationExpected (firstText ts)) none)
  | some relation =>
    let ts ← takeWord (joiner relation) (ts.drop 1)
    .ok ((relation, negated), ts)

/-- Reads the bound of a numeric condition. -/
def bound : List Token → Except Rejection (Binary64 × List Token)
  | [] => .error (.invalidFilter .numberExpected none)
  | t :: ts =>
    match Binary64.ofPlain? t.text with
    | some x => .ok (x, ts)
    | none => .error (.invalidFilter (.notNumber t.text) (some t.text))

/-- Takes the word that ends the phrase of a textual relation. -/
def endPhrase (word : String) (op : TextRelation × Bool) (ts : List Token) :
    Except Rejection ((TextRelation × Bool) × List Token) :=
  (takeWord word ts).map fun rest => (op, rest)

/-- Reads what follows `does not`. -/
def negatedOperator (ts : List Token) : Except Rejection ((TextRelation × Bool) × List Token) :=
  let found := firstText ts
  if found = some "include" then .ok ((.includes, true), ts.drop 1)
  else if found = some "begin" then endPhrase "with" (.beginsWith, true) (ts.drop 1)
  else if found = some "end" then endPhrase "with" (.endsWith, true) (ts.drop 1)
  else .error (.invalidFilter (.negatedExpected found) none)

/-- Reads the phrase of a textual relation. -/
def textOperator : List Token → Except Rejection ((TextRelation × Bool) × List Token)
  | [] => .error (.invalidFilter .operatorExpected none)
  | t :: ts =>
    if t.text = "is" then .ok ((.is, (takeNot ts).1), (takeNot ts).2)
    else if t.text = "includes" then .ok ((.includes, false), ts)
    else if t.text = "begins" then endPhrase "with" (.beginsWith, false) ts
    else if t.text = "ends" then endPhrase "with" (.endsWith, false) ts
    else if t.text = "does" then do negatedOperator (← takeWord "not" ts)
    else .error (.invalidFilter (.notTextOperator t.text) (some t.text))

/-- Takes the tokens up to the first that closes a literal, and gives that one. -/
def closingToken? : List Token → Option (Token × List Token)
  | [] => none
  | t :: ts => if Literal.closes t.chars then some (t, ts) else closingToken? ts

/-- The tokens of a literal after its first: the one that closes it and those that follow. The quote
that opens a literal does not close it. -/
def literalEnd? (first : Token) (ts : List Token) : Option (Token × List Token) :=
  if Literal.closes (first.chars.drop 1) then some (first, ts) else closingToken? ts

/-- Reads a quoted literal. Its body is the text of the sentence between the quotes. -/
def literal (source : String) : List Token → Except Rejection (String × List Token)
  | [] => .error (.invalidFilter .literalExpected none)
  | first :: ts =>
    if first.chars.head? = some '"' then
      match literalEnd? first ts with
      | none => .error (.invalidFilter .literalUnclosed (some first.text))
      | some (last, rest) =>
        match slice source (first.start + 1) (last.stop - 1) with
        | none => .error (.invalidFilter .literalOutside none)
        | some body =>
          match Literal.unescape body with
          | .ok text => .ok (String.ofList text, rest)
          | .error cause => .error (.invalidFilter cause none)
    else .error (.invalidFilter (.notQuoted first.text) (some first.text))

/-- Reads the relation and the bound of a numeric condition. -/
def numberCondition (ts : List Token) : Except Rejection (Condition × List Token) := do
  let ((relation, negated), ts) ← numberOperator ts
  let (x, ts) ← bound ts
  .ok (.number relation negated x, ts)

/-- Reads the relation and the literal of a textual condition. -/
def textCondition (source : String) (ts : List Token) :
    Except Rejection (Condition × List Token) := do
  let ((relation, negated), ts) ← textOperator ts
  let (text, ts) ← literal source ts
  .ok (.text relation negated text, ts)

/-- Reads a condition of a kind. -/
def condition (source : String) : CellKind → List Token → Except Rejection (Condition × List Token)
  | .number => numberCondition
  | .text => textCondition source

/-- Reads a field and the condition on it. -/
def predicate (source : String) : List Token → Except Rejection (Predicate × List Token)
  | [] => .error (.invalidFilter .conditionExpected none)
  | t :: ts =>
    match Field.ofName? t.text with
    | none => .error (.invalidFilter (.unknownField t.text) (some t.text))
    | some field =>
      (condition source field.kind ts).map fun (condition, rest) => (⟨field, condition⟩, rest)

section Length

variable {α β : Type} {ts rest : List Token}

/-- A reading in two steps succeeds only if both of its steps do. -/
theorem ok_of_bind {x : Except Rejection α} {f : α → Except Rejection β} {y : β}
    (h : (x >>= f) = .ok y) : ∃ a, x = .ok a ∧ f a = .ok y := by
  cases x with
  | error rejection => simp [bind, Except.bind] at h
  | ok a => exact ⟨a, rfl, h⟩

/-- A reading whose result is changed succeeds only if the reading does. -/
theorem ok_of_map {x : Except Rejection α} {f : α → β} {y : β} (h : x.map f = .ok y) :
    ∃ a, x = .ok a ∧ f a = y := by
  cases x with
  | error rejection => simp [Except.map] at h
  | ok a => exact ⟨a, rfl, Except.ok.inj h⟩

/-- A given word is one token. -/
theorem takeWord_length {word : String} (h : takeWord word ts = .ok rest) :
    rest.length < ts.length := by
  cases ts with
  | nil => simp [takeWord] at h
  | cons t ts =>
    rw [takeWord] at h
    split at h
    · rw [← Except.ok.inj h]
      exact Nat.lt_succ_self _
    · contradiction

/-- An optional `not` gives nothing back. -/
theorem takeNot_length (ts : List Token) : (takeNot ts).2.length ≤ ts.length := by
  cases ts with
  | nil => exact Nat.le_refl _
  | cons t ts =>
    rw [takeNot]
    split
    · exact Nat.le_succ _
    · exact Nat.le_refl _

/-- The phrase of a numeric relation has a word. -/
theorem numberOperator_length {op : NumberRelation × Bool}
    (h : numberOperator ts = .ok (op, rest)) : rest.length < ts.length := by
  obtain ⟨afterIs, his, h⟩ := ok_of_bind h
  have hnot := takeNot_length afterIs
  dsimp only at h
  split at h
  · contradiction
  · obtain ⟨afterJoiner, hjoiner, h⟩ := ok_of_bind h
    have hdrop := takeWord_length hjoiner
    rw [List.length_drop] at hdrop
    rw [← (Prod.mk.inj (Except.ok.inj h)).2]
    have := takeWord_length his
    omega

/-- A bound is one token. -/
theorem bound_length {x : Binary64} (h : bound ts = .ok (x, rest)) : rest.length < ts.length := by
  cases ts with
  | nil => simp [bound] at h
  | cons t ts =>
    rw [bound] at h
    split at h
    · rw [← (Prod.mk.inj (Except.ok.inj h)).2]
      exact Nat.lt_succ_self _
    · contradiction

/-- The end of a phrase is one token. -/
theorem endPhrase_length {word : String} {op op' : TextRelation × Bool}
    (h : endPhrase word op ts = .ok (op', rest)) : rest.length < ts.length := by
  obtain ⟨rest', hword, h⟩ := ok_of_map h
  rw [← (Prod.mk.inj h).2]
  exact takeWord_length hword

/-- What follows `does not` gives nothing back. -/
theorem negatedOperator_length {op : TextRelation × Bool}
    (h : negatedOperator ts = .ok (op, rest)) : rest.length ≤ ts.length := by
  have hdrop : (ts.drop 1).length ≤ ts.length := by
    rw [List.length_drop]
    exact Nat.sub_le _ _
  dsimp only [negatedOperator] at h
  split at h
  · rw [← (Prod.mk.inj (Except.ok.inj h)).2]
    exact hdrop
  · split at h
    · exact Nat.le_trans (Nat.le_of_lt (endPhrase_length h)) hdrop
    · split at h
      · exact Nat.le_trans (Nat.le_of_lt (endPhrase_length h)) hdrop
      · contradiction

/-- The phrase of a textual relation has a word. -/
theorem textOperator_length {op : TextRelation × Bool}
    (h : textOperator ts = .ok (op, rest)) : rest.length < ts.length := by
  cases ts with
  | nil => simp [textOperator] at h
  | cons t ts =>
    refine Nat.lt_succ_of_le ?_
    rw [textOperator] at h
    split at h
    · rw [← (Prod.mk.inj (Except.ok.inj h)).2]
      exact takeNot_length ts
    · split at h
      · exact Nat.le_of_eq (congrArg List.length (Prod.mk.inj (Except.ok.inj h)).2.symm)
      · split at h
        · exact Nat.le_of_lt (endPhrase_length h)
        · split at h
          · exact Nat.le_of_lt (endPhrase_length h)
          · split at h
            · obtain ⟨afterNot, hnot, h⟩ := ok_of_bind h
              exact Nat.le_trans (negatedOperator_length h) (Nat.le_of_lt (takeWord_length hnot))
            · contradiction

/-- The token that closes a literal is taken. -/
theorem closingToken?_length {t : Token} (h : closingToken? ts = some (t, rest)) :
    rest.length < ts.length := by
  induction ts with
  | nil => simp [closingToken?] at h
  | cons t ts ih =>
    rw [closingToken?] at h
    split at h
    · rw [← (Prod.mk.inj (Option.some.inj h)).2]
      exact Nat.lt_succ_self _
    · exact Nat.lt_succ_of_lt (ih h)

/-- The end of a literal gives nothing back. -/
theorem literalEnd?_length {first last : Token} (h : literalEnd? first ts = some (last, rest)) :
    rest.length ≤ ts.length := by
  rw [literalEnd?] at h
  split at h
  · exact Nat.le_of_eq (congrArg List.length (Prod.mk.inj (Option.some.inj h)).2.symm)
  · exact Nat.le_of_lt (closingToken?_length h)

/-- A literal has a token, the one that opens it. -/
theorem literal_length {source text : String} (h : literal source ts = .ok (text, rest)) :
    rest.length < ts.length := by
  cases ts with
  | nil => simp [literal] at h
  | cons first ts =>
    rw [literal] at h
    split at h
    · split at h
      · contradiction
      · rename_i last rest' hend
        split at h
        · contradiction
        · split at h
          · rw [← (Prod.mk.inj (Except.ok.inj h)).2]
            exact Nat.lt_succ_of_le (literalEnd?_length hend)
          · contradiction
    · contradiction

/-- A numeric condition has a token. -/
theorem numberCondition_length {c : Condition} (h : numberCondition ts = .ok (c, rest)) :
    rest.length < ts.length := by
  obtain ⟨⟨op, afterPhrase⟩, hop, h⟩ := ok_of_bind h
  obtain ⟨⟨x, afterBound⟩, hbound, h⟩ := ok_of_bind h
  rw [← (Prod.mk.inj (Except.ok.inj h)).2]
  exact Nat.lt_trans (bound_length hbound) (numberOperator_length hop)

/-- A textual condition has a token. -/
theorem textCondition_length {source : String} {c : Condition}
    (h : textCondition source ts = .ok (c, rest)) : rest.length < ts.length := by
  obtain ⟨⟨op, afterPhrase⟩, hop, h⟩ := ok_of_bind h
  obtain ⟨⟨text, afterLiteral⟩, hliteral, h⟩ := ok_of_bind h
  rw [← (Prod.mk.inj (Except.ok.inj h)).2]
  exact Nat.lt_trans (literal_length hliteral) (textOperator_length hop)

/-- A condition of either kind has a token. -/
theorem condition_length {source : String} {kind : CellKind} {c : Condition}
    (h : condition source kind ts = .ok (c, rest)) : rest.length < ts.length := by
  cases kind with
  | number => exact numberCondition_length h
  | text => exact textCondition_length h

/-- A field and the condition on it take a token, so the groups are read to their end. -/
theorem predicate_length {source : String} {p : Predicate}
    (h : predicate source ts = .ok (p, rest)) : rest.length < ts.length := by
  cases ts with
  | nil => simp [predicate] at h
  | cons t ts =>
    rw [predicate] at h
    split at h
    · contradiction
    · obtain ⟨result, hcondition, h⟩ := ok_of_map h
      rw [← (Prod.mk.inj h).2]
      exact Nat.lt_succ_of_lt (condition_length hcondition)

end Length

/-- Reads the conditions after the first: `group` are those of the current group, last first. -/
def moreGroups (source : String) (group : List Predicate) :
    List Token → Except Rejection (List (List Predicate))
  | [] => .ok [group.reverse]
  | t :: ts =>
    if t.text = "and" then
      match h : predicate source ts with
      | .error rejection => .error rejection
      | .ok (p, rest) =>
        have := predicate_length h
        moreGroups source (p :: group) rest
    else if t.text = "or" then
      match h : predicate source ts with
      | .error rejection => .error rejection
      | .ok (p, rest) =>
        have := predicate_length h
        (moreGroups source [p] rest).map (group.reverse :: ·)
    else .error (.invalidFilter (.connectiveExpected t.text) (some t.text))
termination_by ts => ts.length
decreasing_by all_goals simp only [List.length_cons]; omega

/-- Reads the groups of a filter clause. Every group has a condition. -/
def groups (source : String) (ts : List Token) : Except Rejection (List (List Predicate)) :=
  if ts.isEmpty then .error (.invalidFilter .filterEmpty none)
  else
    match predicate source ts with
    | .error rejection => .error rejection
    | .ok (p, rest) => moreGroups source [p] rest

/-- Reads a filter clause. -/
def filter (source : String) (ts : List Token) : Except Rejection Filter :=
  (groups source ts).map Filter.ofGroups

end CourseQuery.FilterClause
