import CourseQuery.Query
import CourseQuery.Number.Numeral
import CourseQuery.Sentence.Literal

/-!
# Writing a sentence

`Sentence.write` gives the sentence that asks for a dataset, groups of predicates, fields to show
and a sort field. Each clause is written as the grammar has it, a text literal in quotes with its
quotes and backslashes escaped, and a bound by the numeral that the caller gives for it.
-/

set_option autoImplicit false

namespace CourseQuery.Sentence

/-- A predicate to be written, with the numeral of its bound when it is numeric. -/
inductive Atom where
  | number (field : Field) (relation : NumberRelation) (negated : Bool) (numeral : String)
  | text (field : Field) (relation : TextRelation) (negated : Bool) (literal : String)
deriving DecidableEq, Repr

namespace Atom

/-- The words of an atom. -/
def write : Atom → String
  | number field relation negated numeral =>
    field.name ++ " " ++ relation.phrase negated ++ " " ++ numeral
  | text field relation negated literal =>
    field.name ++ " " ++ relation.phrase negated ++ " \"" ++
      String.ofList (Literal.escape literal.toList) ++ "\""

/-- The predicate that an atom states, if its numeral is one. -/
def predicate? : Atom → Option Predicate
  | number field relation negated numeral =>
    (Binary64.ofPlain? numeral).map fun x => ⟨field, .number relation negated x⟩
  | text field relation negated literal => some ⟨field, .text relation negated literal⟩

end Atom

/-- The filter of a sentence. No groups at all ask for every entry. -/
def writeFilter (groups : List (List Atom)) : String :=
  if groups.isEmpty then "find all entries;"
  else
    "find entries whose " ++
      String.intercalate " or "
        (groups.map fun group => String.intercalate " and " (group.map Atom.write)) ++ ";"

/-- The fields of a sentence, the last of several after `and`. -/
def writeFields : List Field → String
  | [] => ""
  | [f] => f.name
  | [f, g] => f.name ++ ", and " ++ g.name
  | f :: fs => f.name ++ ", " ++ writeFields fs

/-- The end of a sentence, with the order clause if there is a sort field. -/
def writeOrder : Option Field → String
  | none => "."
  | some f => "; sort in ascending order by " ++ f.name ++ "."

/-- The sentence with the given parts. -/
def write (dataset : String) (groups : List (List Atom)) (display : List Field)
    (sort : Option Field) : String :=
  "In courses dataset " ++ dataset ++ ", " ++ writeFilter groups ++ " show " ++
    writeFields display ++ writeOrder sort

end CourseQuery.Sentence
