import CourseQuery.Text.Blank
import CourseQuery.Text.Utf8

/-!
# Words of a sentence

A sentence is cut into tokens, the longest runs of characters that are not blank. Punctuation stays
with the word it follows. Each token keeps the byte positions at which it begins and ends, so that a
quoted literal of several words can be taken from the sentence with its blanks. `slice` takes the
text between two byte positions, if both lie between characters.
-/

set_option autoImplicit false

namespace CourseQuery

/-- A word of a sentence with its byte positions. -/
structure Token where
  text : String
  start : Nat
  stop : Nat
deriving DecidableEq, Repr

namespace Token

/-- The characters of a token. -/
def chars (t : Token) : List Char :=
  t.text.toList

/-- The token without a last character `mark`, if it ends with one. -/
def strip? (mark : Char) (t : Token) : Option Token :=
  if t.chars.getLast? = some mark then
    some ⟨String.ofList t.chars.dropLast, t.start, t.stop - mark.utf8Size⟩
  else none

/-- The punctuation marks that end a word, the first that fits being taken. -/
def marks : List Char := [',', ';', '.']

/-- Splits off the punctuation mark that ends a token. -/
def splitMark (t : Token) : Token × Option Char :=
  match marks.findSome? fun mark => (t.strip? mark).map fun word => (word, some mark) with
  | some split => split
  | none => (t, none)

/-- The tokens of a run of characters that begins at a byte position. -/
def tokensFrom (start : Nat) (s : List Char) : List Token :=
  match _h : s.dropWhile Text.isBlank with
  | [] => []
  | c :: rest =>
    let first := start + Text.Utf8.size (s.takeWhile Text.isBlank)
    let word := (c :: rest).takeWhile (!Text.isBlank ·)
    let stop := first + Text.Utf8.size word
    ⟨String.ofList word, first, stop⟩ :: tokensFrom stop ((c :: rest).dropWhile (!Text.isBlank ·))
termination_by s.length
decreasing_by
  have hc : Text.isBlank c = false := by
    have := List.head?_dropWhile_not Text.isBlank s
    simpa [_h] using this
  have h1 : (c :: rest).length ≤ s.length := _h ▸ (List.dropWhile_sublist _).length_le
  have h2 : (rest.dropWhile (!Text.isBlank ·)).length ≤ rest.length :=
    (List.dropWhile_sublist _).length_le
  simp only [List.dropWhile_cons, hc, Bool.not_false, if_true, List.length_cons] at h1 ⊢
  omega

end Token

/-- The tokens of a sentence. -/
def tokenize (source : String) : List Token :=
  Token.tokensFrom 0 source.toList

/-- Drops characters that take exactly `n` bytes. -/
def dropBytes (n : Nat) : List Char → Option (List Char)
  | [] => if n = 0 then some [] else none
  | c :: rest =>
    if n = 0 then some (c :: rest)
    else if c.utf8Size ≤ n then dropBytes (n - c.utf8Size) rest
    else none

/-- Takes characters that take exactly `n` bytes. -/
def takeBytes (n : Nat) : List Char → Option (List Char)
  | [] => if n = 0 then some [] else none
  | c :: rest =>
    if n = 0 then some []
    else if c.utf8Size ≤ n then (takeBytes (n - c.utf8Size) rest).map (c :: ·)
    else none

/-- The characters between two byte positions, which must lie between characters and in order. -/
def slice (source : String) (start stop : Nat) : Option (List Char) :=
  if start ≤ stop then (dropBytes start source.toList).bind (takeBytes (stop - start)) else none

end CourseQuery
