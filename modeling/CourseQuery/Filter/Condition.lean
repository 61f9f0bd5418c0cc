import CourseQuery.Record

/-!
# Conditions on one cell

A condition compares a cell with a literal of the same kind. There are three relations between
numbers and four between texts; each can be negated, and each has its phrase in a sentence. The
negation of an order between numbers is the opposite order, not the complement, so that a NaN
satisfies neither.
-/

set_option autoImplicit false

namespace CourseQuery

/-- A relation between numbers. -/
inductive NumberRelation where
  | equal
  | greater
  | less
deriving DecidableEq, Repr

/-- A relation between texts. -/
inductive TextRelation where
  | is
  | includes
  | beginsWith
  | endsWith
deriving DecidableEq, Repr

namespace NumberRelation

/-- The phrase of a relation or of its negation. -/
def phrase : NumberRelation → (negated : Bool) → String
  | equal, false => "is equal to"
  | equal, true => "is not equal to"
  | greater, false => "is greater than"
  | greater, true => "is not greater than"
  | less, false => "is less than"
  | less, true => "is not less than"

/-- The relation, or its negation, between an actual number and a bound. -/
def holds : NumberRelation → (negated : Bool) → (actual bound : Binary64) → Bool
  | equal, false, x, b => x.equal b
  | equal, true, x, b => !x.equal b
  | greater, false, x, b => b.less x
  | greater, true, x, b => x.atMost b
  | less, false, x, b => x.less b
  | less, true, x, b => b.atMost x

end NumberRelation

namespace TextRelation

/-- The phrase of a relation or of its negation. -/
def phrase : TextRelation → (negated : Bool) → String
  | is, false => "is"
  | is, true => "is not"
  | includes, false => "includes"
  | includes, true => "does not include"
  | beginsWith, false => "begins with"
  | beginsWith, true => "does not begin with"
  | endsWith, false => "ends with"
  | endsWith, true => "does not end with"

/-- A run of characters occurs somewhere in another. -/
def occursIn (part : List Char) : (whole : List Char) → Bool
  | [] => part.isEmpty
  | c :: rest => part.isPrefixOf (c :: rest) || occursIn part rest

/-- The relation between an actual text and a literal. -/
def relates : TextRelation → (actual literal : String) → Bool
  | is, s, t => s == t
  | includes, s, t => occursIn t.toList s.toList
  | beginsWith, s, t => t.toList.isPrefixOf s.toList
  | endsWith, s, t => t.toList.isSuffixOf s.toList

/-- The relation, or its negation, between an actual text and a literal. -/
def holds (r : TextRelation) (negated : Bool) (actual literal : String) : Bool :=
  r.relates actual literal != negated

end TextRelation

/-- A relation and the literal it compares with. -/
inductive Condition where
  | number (relation : NumberRelation) (negated : Bool) (bound : Binary64)
  | text (relation : TextRelation) (negated : Bool) (literal : String)
deriving DecidableEq, Repr

namespace Condition

/-- The kind of cell a condition applies to. -/
def kind : Condition → CellKind
  | number .. => .number
  | text .. => .text

/-- The phrase of a condition. -/
def phrase : Condition → String
  | number relation negated _ => relation.phrase negated
  | text relation negated _ => relation.phrase negated

/-- Every phrase of numeric conditions. -/
def numberPhrases : List (NumberRelation × Bool) :=
  [(.equal, false), (.equal, true), (.greater, false), (.greater, true), (.less, false),
   (.less, true)]

/-- Every phrase of textual conditions. -/
def textPhrases : List (TextRelation × Bool) :=
  [(.is, false), (.is, true), (.includes, false), (.includes, true), (.beginsWith, false),
   (.beginsWith, true), (.endsWith, false), (.endsWith, true)]

/-- The numeric relation with a phrase. -/
def numberPhrase? (s : String) : Option (NumberRelation × Bool) :=
  numberPhrases.find? fun (relation, negated) => relation.phrase negated = s

/-- The textual relation with a phrase. -/
def textPhrase? (s : String) : Option (TextRelation × Bool) :=
  textPhrases.find? fun (relation, negated) => relation.phrase negated = s

end Condition

/-- A condition on the cell of a field. -/
structure Predicate where
  field : Field
  condition : Condition
deriving DecidableEq, Repr

namespace Predicate

/-- The condition has the kind of the field. -/
def wellTyped (p : Predicate) : Bool :=
  p.condition.kind = p.field.kind

/-- A predicate as a person reads it; the literal is not escaped. -/
def shown (p : Predicate) : String :=
  p.field.name ++ " " ++ p.condition.phrase ++ " " ++
    match p.condition with
    | .number _ _ bound => bound.plainText
    | .text _ _ literal => "\"" ++ literal ++ "\""

/-- Whether a record satisfies a predicate; the field must have a cell of the condition's kind. -/
def test (p : Predicate) (r : Record) : Except Record.Defect Bool :=
  match p.condition, r.cell p.field with
  | _, none => .error (.missing p.field)
  | .number relation negated bound, some (.number x) => .ok (relation.holds negated x bound)
  | .text relation negated literal, some (.text s) => .ok (relation.holds negated s literal)
  | _, some c => .error (.wrongKind p.field c.kind)

end Predicate

end CourseQuery
