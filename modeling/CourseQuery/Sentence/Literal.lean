import CourseQuery.Sentence.Rejection

/-!
# Quoted literals

A text literal stands in double quotes. Inside it a backslash escapes the character after it, so
that `\"` and `\\` are a quote and a backslash; before any other character the backslash stands for
itself. Three scans follow this rule: one counts the quotes that are not escaped, which tells
whether a `;` lies inside a literal; one asks whether a word closes a literal; and `unescape` gives
the text that the body of a literal denotes. `escape` writes a text as the body of a literal.
-/

set_option autoImplicit false

namespace CourseQuery.Literal

/-- The number of quotes that are not escaped; `escaped` says whether a backslash stands just before
the text and escapes its first character. -/
def openQuotes (escaped : Bool) : List Char → Nat
  | [] => 0
  | c :: rest =>
    if escaped then openQuotes false rest
    else if c = '\\' then openQuotes true rest
    else if c = '"' then openQuotes false rest + 1
    else openQuotes false rest

/-- The number of quotes in a text that are not escaped. -/
def unescapedQuotes (s : List Char) : Nat :=
  openQuotes false s

/-- Whether the last character is a quote that is not escaped, given whether the first is escaped
and what to answer for the empty text. -/
def closesFrom (escaped closing : Bool) : List Char → Bool
  | [] => closing
  | c :: rest => closesFrom (!escaped && c == '\\') (!escaped && c == '"') rest

/-- Whether the last character of a text is a quote that is not escaped. -/
def closes (s : List Char) : Bool :=
  closesFrom false false s

/-- The text that the body of a literal denotes. A quote that is not escaped has no place in a body,
and neither has a `*`. -/
def unescape : List Char → Except Cause (List Char)
  | [] => .ok []
  | ['\\'] => .ok ['\\']
  | '\\' :: c :: rest =>
    (unescape rest).map fun text => if c = '"' ∨ c = '\\' then c :: text else '\\' :: c :: text
  | c :: rest =>
    if c = '"' then .error .strayQuote
    else if c = '*' then .error .wildcard
    else (unescape rest).map (c :: ·)

/-- A character in the body of a literal. -/
def escapeChar (c : Char) : List Char :=
  if c = '"' ∨ c = '\\' then ['\\', c] else [c]

/-- The body of a literal that denotes a text. -/
def escape (text : List Char) : List Char :=
  text.flatMap escapeChar

end CourseQuery.Literal
