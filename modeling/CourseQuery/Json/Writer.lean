import CourseQuery.Json.Value
import CourseQuery.Number.Layout

/-!
# Writing JSON

`Json.text` is the compact form, one line without spaces; `Json.membersByLine` is the form of a
manifest, one member a line. A string is written with two-character escapes where JSON has them and
with `\u00xx` for the other control characters below U+0020; every other character stands for
itself.
-/

set_option autoImplicit false

namespace CourseQuery

/-- A digit of base sixteen, in lower case. -/
def hexDigit (n : Nat) : Char :=
  if n < 10 then Char.ofNat ('0'.toNat + n) else Char.ofNat ('a'.toNat + (n - 10))

/-- The escape of a character by its code point in four digits of base sixteen. -/
def unicodeEscape (c : Char) : List Char :=
  let n := c.toNat
  ['\\', 'u', hexDigit (n / 4096 % 16), hexDigit (n / 256 % 16), hexDigit (n / 16 % 16),
   hexDigit (n % 16)]

namespace Json

/-- A character inside a string. -/
def escapeChar (c : Char) : List Char :=
  if c = '"' then ['\\', '"']
  else if c = '\\' then ['\\', '\\']
  else if c = '\n' then ['\\', 'n']
  else if c = '\r' then ['\\', 'r']
  else if c = '\t' then ['\\', 't']
  else if c = '\x08' then ['\\', 'b']
  else if c = '\x0c' then ['\\', 'f']
  else if c.toNat < 0x20 then unicodeEscape c
  else [c]

/-- A string in quotes. -/
def quoted (s : String) : List Char :=
  '"' :: s.toList.flatMap escapeChar ++ ['"']

mutual

/-- The compact form of a value. -/
def chars : Json → List Char
  | null => "null".toList
  | bool b => (if b then "true" else "false").toList
  | integer i => (toString i).toList
  | real x => x.documentText.toList
  | string s => quoted s
  | array elements => '[' :: charsOfList elements ++ [']']
  | object members => '\x7b' :: charsOfMembers members ++ ['\x7d']

/-- The values of an array, separated by commas. -/
def charsOfList : List Json → List Char
  | [] => []
  | [v] => chars v
  | v :: vs => chars v ++ ',' :: charsOfList vs

/-- The members of an object, separated by commas. -/
def charsOfMembers : List (String × Json) → List Char
  | [] => []
  | [(name, v)] => quoted name ++ ':' :: chars v
  | (name, v) :: ms => quoted name ++ ':' :: chars v ++ ',' :: charsOfMembers ms

end

/-- The compact form of a value, as a text. -/
def text (v : Json) : String :=
  String.ofList (chars v)

/-- An object with each member on an indented line of its own. -/
def membersByLine (members : List (String × Json)) : String :=
  let lines := members.map fun (name, v) =>
    "  ".toList ++ quoted name ++ ": ".toList ++ chars v
  String.ofList ("\x7b\n".toList ++ List.intercalate ",\n".toList lines ++ "\n\x7d".toList)

end Json

end CourseQuery
