import CourseQuery.Proofs.Number.Plain
import CourseQuery.Proofs.Sentence.Words
import CourseQuery.Query
import CourseQuery.DatasetId
import CourseQuery.Text.Split

/-!
# The grammar of sentences

The grammar is given without a reader. Each relation below joins a part of a query with the lexemes
that say it, and `Asks` joins a whole sentence with the query it asks. A lexeme is a word or a
quoted literal; `LaidOut` says that lexemes stand in a text with blanks between them, so nothing
here depends on how a text is cut into tokens, where a literal is found to end, or which `;` is
taken for the end of the filter.
-/

set_option autoImplicit false

namespace CourseQuery.Sentence

/-- The words of a phrase whose words are one space apart. -/
def wordsOf (phrase : String) : List (List Char) :=
  Text.split ' ' phrase.toList

/-- The body of a literal and the text it denotes. A backslash takes the character after it,
whatever it is, and stays unless that is a quote or a backslash. Any other character stands for
itself; a quote or a `*` cannot. -/
inductive Body : List Char → List Char → Prop
  | nil : Body [] []
  | escaped {c : Char} {body text : List Char} :
      c = '"' ∨ c = '\\' → Body body text → Body ('\\' :: c :: body) (c :: text)
  | kept {c : Char} {body text : List Char} :
      ¬(c = '"' ∨ c = '\\') → Body body text → Body ('\\' :: c :: body) ('\\' :: c :: text)
  | plain {c : Char} {body text : List Char} :
      c ≠ '"' → c ≠ '\\' → c ≠ '*' → Body body text → Body (c :: body) (c :: text)

/-- A body between quotes. -/
def quoted (body : List Char) : List Char :=
  '"' :: (body ++ ['"'])

/-- What compares a cell of a kind: the phrase of a relation between such cells, and a literal. -/
inductive Comparison : CellKind → Condition → List (List Char) → Prop
  | number (relation : NumberRelation) (negated : Bool) {word : List Char} {bound : Binary64} :
      Numeral.Plain word bound →
      Comparison .number (.number relation negated bound)
        (wordsOf (relation.phrase negated) ++ [word])
  | text (relation : TextRelation) (negated : Bool) {body text : List Char} :
      Body body text →
      Comparison .text (.text relation negated (String.ofList text))
        (wordsOf (relation.phrase negated) ++ [quoted body])

/-- A field and what compares its cell. -/
inductive States : Predicate → List (List Char) → Prop
  | mk (field : Field) {condition : Condition} {lexemes : List (List Char)} :
      Comparison field.kind condition lexemes →
      States ⟨field, condition⟩ (field.name.toList :: lexemes)

/-- Atoms with `and` and `or` between them: `or` begins a new group. -/
inductive Conditions : List (List Predicate) → List (List Char) → Prop
  | atom {p : Predicate} {lexemes : List (List Char)} :
      States p lexemes → Conditions [[p]] lexemes
  | and {p : Predicate} {group : List Predicate} {groups : List (List Predicate)}
      {lexemes more : List (List Char)} :
      States p lexemes → Conditions (group :: groups) more →
      Conditions ((p :: group) :: groups) (lexemes ++ "and".toList :: more)
  | or {p : Predicate} {groups : List (List Predicate)} {lexemes more : List (List Char)} :
      States p lexemes → Conditions groups more →
      Conditions ([p] :: groups) (lexemes ++ "or".toList :: more)

/-- Lexemes with a `;` after them, alone or at the end of the last one. -/
inductive Closed : List (List Char) → List (List Char) → Prop
  | alone (lexemes : List (List Char)) : Closed lexemes (lexemes ++ [[';']])
  | attached (lexemes : List (List Char)) (last : List Char) :
      Closed (lexemes ++ [last]) (lexemes ++ [last ++ [';']])

/-- What to find, up to the `;`. -/
inductive Finds : Filter → List (List Char) → Prop
  | everything : Finds .everything (wordsOf "find all entries;")
  | conditions {groups : List (List Predicate)} {lexemes closed : List (List Char)} :
      Conditions groups lexemes → Closed lexemes closed →
      Finds (.ofGroups groups) (wordsOf "find entries whose" ++ closed)

/-- The fields after the first that is shown, and the mark that ends them. Each may stand after
`and`, and the last one must. -/
inductive LaterFields (mark : Char) : List Field → List (List Char) → Prop
  | last (field : Field) :
      LaterFields mark [field] ["and".toList, field.name.toList ++ [mark]]
  | plain (field : Field) {fields : List Field} {lexemes : List (List Char)} :
      LaterFields mark fields lexemes →
      LaterFields mark (field :: fields) ((field.name.toList ++ [',']) :: lexemes)
  | and (field : Field) {fields : List Field} {lexemes : List (List Char)} :
      LaterFields mark fields lexemes →
      LaterFields mark (field :: fields)
        ("and".toList :: (field.name.toList ++ [',']) :: lexemes)

/-- The fields that are shown, and the mark that ends them. -/
inductive ShownFields (mark : Char) : List Field → List (List Char) → Prop
  | one (field : Field) : ShownFields mark [field] [field.name.toList ++ [mark]]
  | several (field : Field) {fields : List Field} {lexemes : List (List Char)} :
      LaterFields mark fields lexemes →
      ShownFields mark (field :: fields) ((field.name.toList ++ [',']) :: lexemes)

/-- What follows the shown fields after the mark that ends them: nothing after a full stop, and the
order after a `;`. -/
inductive Ending : Char → Option Field → List (List Char) → Prop
  | stop : Ending '.' none []
  | order (field : Field) :
      Ending ';' (some field)
        (wordsOf "sort in ascending order by" ++ [field.name.toList ++ ['.']])

/-- A sentence asks a query: it is made of the clauses of the grammar and nothing else, and these
say the dataset, the filter, the set of shown fields and the order of the query. -/
structure Asks (source : String) (q : Query) : Prop where
  valid : DatasetId.Valid q.dataset
  clauses : ∃ finds fields mark shows ending,
    Finds q.filter finds ∧
    ShownFields mark fields shows ∧ (∀ f, f ∈ q.display ↔ f ∈ fields) ∧
    Ending mark q.sort ending ∧
    LaidOut
      (wordsOf "In courses dataset" ++ [q.dataset.toList ++ [',']] ++ finds ++
        wordsOf "show" ++ shows ++ ending)
      source.toList

end CourseQuery.Sentence
