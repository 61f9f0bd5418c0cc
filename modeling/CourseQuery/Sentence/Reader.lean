import CourseQuery.Sentence.FilterClause

/-!
# Reading a sentence

A sentence has one of the forms

    In courses dataset ID, find all entries; show FIELDS.
    In courses dataset ID, find entries whose FILTER; show FIELDS.

each perhaps with `; sort in ascending order by FIELD` before the full stop. `Sentence.read` takes
it clause by clause, and the first clause that does not fit is the one that the rejection names.
-/

set_option autoImplicit false

namespace CourseQuery.Sentence

/-- Takes a given word of a clause. -/
def takeWord (clause : Clause) (word : String) : List Token → Except Rejection (List Token)
  | [] => .error (.unexpected clause s!"'{word}'" none)
  | t :: ts =>
    if t.text = word then .ok ts else .error (.unexpected clause s!"'{word}'" (some t.text))

/-- Takes given words of a clause, one after another. -/
def takeWords (clause : Clause) : List String → List Token → Except Rejection (List Token)
  | [], ts => .ok ts
  | word :: words, ts => do
    let ts ← takeWord clause word ts
    takeWords clause words ts

/-- Reads `In courses dataset ID,`. -/
def datasetClause (ts : List Token) : Except Rejection (String × List Token) := do
  let ts ← takeWords .dataset ["In", "courses", "dataset"] ts
  match ts with
  | [] => .error (.unexpected .dataset "a dataset id" none)
  | t :: ts =>
    match t.strip? ',' with
    | none => .error (.unexpected .dataset "dataset id followed by ','" (some t.text))
    | some id =>
      match DatasetId.fault? id.text with
      | some fault => .error (.malformed .dataset (.datasetId id.text fault) (some id.text))
      | none => .ok (id.text, ts)

/-- Takes the tokens of a filter up to the first `;` that lies outside a literal, and drops that
mark. A token with an odd number of quotes that are not escaped opens or closes a literal. -/
def filterTokens (inLiteral : Bool) : List Token → Except Rejection (List Token × List Token)
  | [] => .error (.malformed .filter .filterUnclosed none)
  | t :: ts =>
    let inside := inLiteral != (Literal.unescapedQuotes t.chars % 2 == 1)
    match if inside then none else t.strip? ';' with
    | some last => .ok (if last.text.isEmpty then [] else [last], ts)
    | none => do
      let (taken, rest) ← filterTokens inside ts
      .ok (t :: taken, rest)

/-- Reads `find all entries;` or `find entries whose FILTER;`. -/
def filterClause (source : String) (ts : List Token) : Except Rejection (Filter × List Token) := do
  let ts ← takeWord .filter "find" ts
  let found := FilterClause.firstText ts
  if found = some "all" then
    let ts ← takeWord .filter "entries;" (ts.drop 1)
    .ok (.everything, ts)
  else if found = some "entries" then
    let ts ← takeWord .filter "whose" (ts.drop 1)
    let (taken, ts) ← filterTokens false ts
    let filter ← FilterClause.filter source taken
    .ok (filter, ts)
  else .error (.unexpected .filter "'all entries;' or 'entries whose'" found)

/-- The field that a word of a clause names. -/
def fieldOf (clause : Clause) (word : String) : Except Rejection Field :=
  match Field.ofName? word with
  | some field => .ok field
  | none => .error (.unknownField clause word)

/-- Reads the fields of `show FIELDS` up to the mark that ends them, and whether an order clause
follows. `first` says that no field has been read, `sawAnd` that `and` stands just before. The last
of several fields stands after `and`. -/
def displayFields (first sawAnd : Bool) :
    List Token → Except Rejection ((List Field × Bool) × List Token)
  | [] => .error (.unexpected .display "a display field" none)
  | t :: ts =>
    if t.text = "and" then
      if first || sawAnd then .error (.unexpected .display "a display field" (some t.text))
      else displayFields first true ts
    else do
      let (word, mark) := t.splitMark
      let field ← fieldOf .display word.text
      match mark with
      | some ',' =>
        let ((fields, order), rest) ← displayFields false false ts
        .ok ((field :: fields, order), rest)
      | some mark =>
        if first || sawAnd then .ok (([field], mark == ';'), ts)
        else .error (.malformed .display .andMissing (some t.text))
      | none =>
        if ts.isEmpty then .error (.malformed .terminator .fullStopMissing none)
        else .error (.unexpected .display "',' after display field" (FilterClause.firstText ts))

/-- Reads `show FIELDS` with the mark that ends it. -/
def displayClause (ts : List Token) : Except Rejection ((List Field × Bool) × List Token) := do
  let ts ← takeWord .display "show" ts
  displayFields true false ts

/-- Reads `sort in ascending order by FIELD.`. -/
def orderClause (ts : List Token) : Except Rejection (Field × List Token) := do
  let ts ← takeWords .order ["sort", "in", "ascending", "order", "by"] ts
  match ts with
  | [] => .error (.unexpected .order "a sort field" none)
  | t :: ts =>
    let (word, mark) := t.splitMark
    let field ← fieldOf .order word.text
    if mark = some '.' then .ok (field, ts)
    else if mark = none ∧ ts.isEmpty then .error (.malformed .terminator .fullStopMissing none)
    else .error (.unexpected .order "sort field followed by '.'" (some t.text))

/-- Checks that the sentence is over. -/
def terminator : List Token → Except Rejection Unit
  | [] => .ok ()
  | t :: _ => .error (.malformed .terminator .textAfterFullStop (some t.text))

/-- Reads the query that a sentence asks. -/
def read (source : String) : Except Rejection Query := do
  let ts := tokenize source
  let (dataset, ts) ← datasetClause ts
  let (filter, ts) ← filterClause source ts
  let ((display, order), ts) ← displayClause ts
  let (sort, ts) ← if order then do
      let (field, ts) ← orderClause ts
      .ok (some field, ts)
    else .ok (none, ts)
  terminator ts
  (Query.ofParts dataset filter display sort).mapError Rejection.ofQueryFault

end CourseQuery.Sentence
