import CourseQuery.Query
import CourseQuery.DatasetId

/-!
# Why a sentence is rejected

A sentence is read clause by clause and the first clause that does not fit rejects it. A rejection
names the clause, the cause and, where one word is to blame, that word. The wording of every cause
is in `Cause.message` and nowhere else.
-/

set_option autoImplicit false

namespace CourseQuery

/-- The clauses of a sentence, in order. -/
inductive Clause where
  | dataset
  | filter
  | display
  | order
  | terminator
deriving DecidableEq, Repr

/-- The name of a clause. -/
def Clause.name : Clause → String
  | dataset => "dataset"
  | filter => "filter"
  | display => "display"
  | order => "order"
  | terminator => "terminator"

/-- What a word fails to be. -/
inductive Cause where
  /-- Something else was expected at this place of a sentence. -/
  | expected (what : String) (found : Option String)
  | unknownField (name : String)
  | datasetId (id : String) (fault : DatasetId.Fault)
  | filterUnclosed
  | andMissing
  | fullStopMissing
  | textAfterFullStop
  | query (fault : Query.Fault)
  | filterEmpty
  | connectiveExpected (found : String)
  | conditionExpected
  /-- Another word was expected at this place of a filter. -/
  | wordExpected (word : String) (found : Option String)
  | relationExpected (found : Option String)
  | numberExpected
  | notNumber (word : String)
  | operatorExpected
  | notTextOperator (word : String)
  | negatedExpected (found : Option String)
  | literalExpected
  | notQuoted (word : String)
  | literalUnclosed
  | literalOutside
  | strayQuote
  | wildcard
  /-- A cause in the words of the caller. -/
  | stated (reason : String)
deriving DecidableEq, Repr

namespace Cause

/-- A word that was found, or the end of the filter. -/
def foundInFilter (found : Option String) : String :=
  found.getD "end of filter"

/-- The wording of a cause. -/
def message : Cause → String
  | expected what none => s!"Expected {what}, found end of query"
  | expected what (some word) => s!"Expected {what}, found '{word}'"
  | unknownField name => s!"'{name}' is not a known field"
  | datasetId id fault => fault.message id
  | filterUnclosed => "Filter clause must end with ';'"
  | andMissing => "The last display field must be preceded by 'and'"
  | fullStopMissing => "Query must end with '.'"
  | textAfterFullStop => "Unexpected text after the final '.'"
  | query .nothingShown => "At least one display field is required"
  | query (.sortNotShown field) => s!"Sort field '{field.name}' is not a display field"
  | filterEmpty => "Filter expression is empty"
  | connectiveExpected found => s!"Expected 'and' or 'or' between conditions, found '{found}'"
  | conditionExpected => "Connective must be followed by a condition"
  | wordExpected word none => s!"Expected '{word}', found end of filter"
  | wordExpected word (some found) => s!"Expected '{word}', found '{found}'"
  | relationExpected found =>
    s!"Expected 'equal to', 'greater than' or 'less than', found '{foundInFilter found}'"
  | numberExpected => "Expected a number, found end of filter"
  | notNumber word => s!"'{word}' is not a number"
  | operatorExpected => "Expected an operator, found end of filter"
  | notTextOperator word => s!"'{word}' is not a text operator"
  | negatedExpected found =>
    s!"Expected 'include', 'begin with' or 'end with', found '{foundInFilter found}'"
  | literalExpected => "Expected a quoted string, found end of filter"
  | notQuoted word => s!"String literal must be double-quoted, found '{word}'"
  | literalUnclosed => "Unterminated string literal"
  | literalOutside => "String literal lies outside the query"
  | strayQuote => "String literal contains an unescaped quote"
  | wildcard => "String literal may not contain '*'"
  | stated reason => reason

end Cause

/-- The classes of rejections. -/
inductive RejectionCode where
  | malformedQuery
  | invalidFilter
  | unknownField
deriving DecidableEq, Repr

/-- The code of a class of rejections. -/
def RejectionCode.text : RejectionCode → String
  | malformedQuery => "CQ_MALFORMED_QUERY"
  | invalidFilter => "CQ_INVALID_FILTER"
  | unknownField => "CQ_UNKNOWN_FIELD"

/-- Why a sentence is rejected. -/
structure Rejection where
  code : RejectionCode
  clause : Clause
  cause : Cause
  /-- The word to blame, if there is one. -/
  token : Option String
deriving DecidableEq, Repr

namespace Rejection

/-- A clause that breaks the grammar. -/
def malformed (clause : Clause) (cause : Cause) (token : Option String) : Rejection :=
  ⟨.malformedQuery, clause, cause, token⟩

/-- A clause in which something else was expected. -/
def unexpected (clause : Clause) (what : String) (found : Option String) : Rejection :=
  ⟨.malformedQuery, clause, .expected what found, found⟩

/-- A clause that names an unknown field. -/
def unknownField (clause : Clause) (name : String) : Rejection :=
  ⟨.unknownField, clause, .unknownField name, some name⟩

/-- A filter that cannot be built. -/
def invalidFilter (cause : Cause) (token : Option String) : Rejection :=
  ⟨.invalidFilter, .filter, cause, token⟩

/-- Parts that make no query. -/
def ofQueryFault : Query.Fault → Rejection
  | .nothingShown => malformed .display (.query .nothingShown) none
  | .sortNotShown field => malformed .order (.query (.sortNotShown field)) (some field.name)

/-- The wording of the cause. -/
def message (r : Rejection) : String :=
  r.cause.message

/-- The wording of the cause with the clause. -/
def messageInClause (r : Rejection) : String :=
  s!"{r.message} (in {r.clause.name} clause)"

/-- A rejection as a person reads it. -/
def shown (r : Rejection) : String :=
  s!"[REJECT] {r.code.text}: {r.messageInClause}"

end Rejection

end CourseQuery
