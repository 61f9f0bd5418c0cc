import CourseQuery.Json.Value
import CourseQuery.Number.Scaled

/-!
# Reading JSON

The grammar is that of the JSON standard and nothing beyond it. A value is read in one of two ways.
Read *strictly*, a string must spell Unicode text, so no escape may name half of a surrogate pair
alone, and a number must lie in the range of binary64. A member that nobody asks for is only
*skimmed*: its grammar counts, but not what it denotes. `parse?` reads a whole document strictly;
`fields?` reads the members of one structure and skims the rest.
-/

set_option autoImplicit false

namespace CourseQuery

namespace Json

/-- The white space of JSON. -/
def isSpace (c : Char) : Bool :=
  c == ' ' || c == '\t' || c == '\n' || c == '\r'

/-- Drops white space. -/
def skipSpace (s : List Char) : List Char :=
  s.dropWhile isSpace

/-- The value of a digit of base sixteen in either case. -/
def hexValue? (c : Char) : Option Nat :=
  let n := c.toNat
  if '0'.toNat ≤ n ∧ n ≤ '9'.toNat then some (n - '0'.toNat)
  else if 'a'.toNat ≤ n ∧ n ≤ 'f'.toNat then some (n - 'a'.toNat + 10)
  else if 'A'.toNat ≤ n ∧ n ≤ 'F'.toNat then some (n - 'A'.toNat + 10)
  else none

/-- Reads four digits of base sixteen. -/
def hexQuad : List Char → Option (Nat × List Char)
  | a :: b :: c :: d :: rest =>
    match hexValue? a, hexValue? b, hexValue? c, hexValue? d with
    | some a, some b, some c, some d => some (a * 4096 + b * 256 + c * 16 + d, rest)
    | _, _, _, _ => none
  | _ => none

/-- Reads the second half of a surrogate pair. -/
def lowSurrogate : List Char → Option (Nat × List Char)
  | '\\' :: 'u' :: s => (hexQuad s).filter fun (n, _) => 0xDC00 ≤ n ∧ n < 0xE000
  | _ => none

/-- Reads the code point of an escape after its `\u`. Half of a surrogate pair alone is refused, or
passed over when the string is only skimmed. -/
def escapedCodePoint (skim : Bool) (s : List Char) : Option (Char × List Char) :=
  match hexQuad s with
  | none => none
  | some (n, rest) =>
    if 0xD800 ≤ n ∧ n < 0xDC00 then
      match lowSurrogate rest with
      | some (m, rest) => some (Char.ofNat (0x10000 + (n - 0xD800) * 1024 + (m - 0xDC00)), rest)
      | none => if skim then some ('\uFFFD', rest) else none
    else if 0xDC00 ≤ n ∧ n < 0xE000 then
      if skim then some ('\uFFFD', rest) else none
    else some (Char.ofNat n, rest)

/-- The character that a backslash and one character stand for. -/
def escapedChar? (c : Char) : Option Char :=
  if c = '"' ∨ c = '\\' ∨ c = '/' then some c
  else if c = 'b' then some '\x08'
  else if c = 'f' then some '\x0c'
  else if c = 'n' then some '\n'
  else if c = 'r' then some '\r'
  else if c = 't' then some '\t'
  else none

/-- Reads what follows a backslash. -/
def escaped (skim : Bool) : List Char → Option (Char × List Char)
  | 'u' :: rest => escapedCodePoint skim rest
  | c :: rest => (escapedChar? c).map fun d => (d, rest)
  | [] => none

/-- Reading four digits takes something. -/
theorem hexQuad_length {s rest : List Char} {n : Nat} (h : hexQuad s = some (n, rest)) :
    rest.length < s.length := by
  unfold hexQuad at h
  split at h
  · split at h
    · rw [← (Prod.mk.inj (Option.some.inj h)).2]
      simp only [List.length_cons]
      omega
    · contradiction
  · contradiction

/-- Reading the second half of a pair takes something. -/
theorem lowSurrogate_length {s rest : List Char} {n : Nat} (h : lowSurrogate s = some (n, rest)) :
    rest.length < s.length := by
  unfold lowSurrogate at h
  split at h
  · have := hexQuad_length (Option.filter_eq_some_iff.1 h).1
    simp only [List.length_cons]; omega
  · contradiction

/-- Reading an escaped code point takes something. -/
theorem escapedCodePoint_length {skim : Bool} {s rest : List Char} {c : Char}
    (h : escapedCodePoint skim s = some (c, rest)) : rest.length < s.length := by
  unfold escapedCodePoint at h
  split at h
  · contradiction
  · rename_i n mid hquad
    have hmid := hexQuad_length hquad
    split at h
    · split at h
      · rename_i m last hlow
        have hlast := lowSurrogate_length hlow
        rw [← (Prod.mk.inj (Option.some.inj h)).2]
        omega
      · split at h
        · rw [← (Prod.mk.inj (Option.some.inj h)).2]
          exact hmid
        · contradiction
    · split at h
      · split at h
        · rw [← (Prod.mk.inj (Option.some.inj h)).2]
          exact hmid
        · contradiction
      · rw [← (Prod.mk.inj (Option.some.inj h)).2]
        exact hmid

/-- Reading what follows a backslash takes something, so a string is read to its end. -/
theorem escaped_length {skim : Bool} {s rest : List Char} {c : Char}
    (h : escaped skim s = some (c, rest)) : rest.length < s.length := by
  unfold escaped at h
  split at h
  · have := escapedCodePoint_length h
    simp only [List.length_cons]; omega
  · obtain ⟨d, _, h⟩ := Option.map_eq_some_iff.1 h
    rw [← (Prod.mk.inj h).2]
    exact Nat.lt_succ_self _
  · contradiction

/-- Reads a string after its opening quote; `seen` are the characters already read, last first. -/
def stringBody (skim : Bool) (seen : List Char) : List Char → Option (String × List Char)
  | [] => none
  | c :: rest =>
    if c = '"' then some (String.ofList seen.reverse, rest)
    else if c = '\\' then
      match h : escaped skim rest with
      | some (d, rest') =>
        have := escaped_length h
        stringBody skim (d :: seen) rest'
      | none => none
    else if c.toNat < 0x20 then none
    else stringBody skim (c :: seen) rest
termination_by s => s.length

/-- Takes the digits at the front. -/
def takeDigits (s : List Char) : List Char × List Char :=
  (s.takeWhile Char.isDigit, s.dropWhile Char.isDigit)

/-- Reads the fraction of a number, if it has one. -/
def fractionPart : List Char → Option (List Char × List Char)
  | '.' :: rest =>
    let (digits, rest) := takeDigits rest
    if digits.isEmpty then none else some (digits, rest)
  | s => some ([], s)

/-- Reads the exponent of a number, if it has one. -/
def exponentPart (s : List Char) : Option (Option Int × List Char) :=
  match s with
  | c :: rest =>
    if c = 'e' ∨ c = 'E' then
      let (negative, rest) := Numeral.takeSign rest
      let (digits, rest) := takeDigits rest
      if digits.isEmpty then none
      else
        let n : Int := Numeral.digitsValue digits
        some (some (if negative then -n else n), rest)
    else some (none, s)
  | [] => some (none, [])

/-- An integer that fits in 64 bits, with a sign only if it is negative. -/
def fitsWord (i : Int) : Bool :=
  decide (Int64.minValue.toInt ≤ i) && decide (i < UInt64.size)

/-- Reads a number. One without fraction and exponent that fits is an integer, except negative
zero. -/
def number (skim : Bool) (s : List Char) : Option (Json × List Char) := do
  let (negative, body) := Numeral.takeMinus s
  let (whole, rest) := takeDigits body
  if whole.isEmpty ∨ (1 < whole.length ∧ whole.head? = some '0') then none
  let (fraction, rest) ← fractionPart rest
  let (exponent, rest) ← exponentPart rest
  let x := Numeral.scaledValue ⟨negative, whole, fraction, exponent.getD 0⟩
  if x.isFinite = false ∧ skim = false then none
  let n : Int := Numeral.digitsValue whole
  let i := if negative then -n else n
  if fraction.isEmpty ∧ exponent = none ∧ fitsWord i ∧ ¬ (negative ∧ n = 0) then
    some (integer i, rest)
  else some (real x, rest)

mutual

/-- Reads one value. The fuel bounds the number of nested calls; the length of the text suffices. -/
def value (skim : Bool) : Nat → List Char → Option (Json × List Char)
  | 0, _ => none
  | fuel + 1, s =>
    match skipSpace s with
    | 'n' :: 'u' :: 'l' :: 'l' :: rest => some (null, rest)
    | 't' :: 'r' :: 'u' :: 'e' :: rest => some (bool true, rest)
    | 'f' :: 'a' :: 'l' :: 's' :: 'e' :: rest => some (bool false, rest)
    | '"' :: rest => (stringBody skim [] rest).map fun (s, rest) => (string s, rest)
    | '[' :: rest =>
      match skipSpace rest with
      | ']' :: rest => some (array [], rest)
      | rest => (elements skim fuel rest).map fun (vs, rest) => (array vs, rest)
    | '\x7b' :: rest =>
      match skipSpace rest with
      | '\x7d' :: rest => some (object [], rest)
      | rest => (members skim (fun _ => skim) fuel rest).map fun (ms, rest) => (object ms, rest)
    | rest => number skim rest

/-- Reads the values of an array up to its closing bracket. -/
def elements (skim : Bool) : Nat → List Char → Option (List Json × List Char)
  | 0, _ => none
  | fuel + 1, s =>
    match value skim fuel s with
    | none => none
    | some (v, rest) =>
      match skipSpace rest with
      | ',' :: rest => (elements skim fuel rest).map fun (vs, rest) => (v :: vs, rest)
      | ']' :: rest => some ([v], rest)
      | _ => none

/-- Reads the members of an object up to its closing brace. A name is read as `skim` says and the
value of a member as `skimValue` says for its name. -/
def members (skim : Bool) (skimValue : String → Bool) :
    Nat → List Char → Option (List (String × Json) × List Char)
  | 0, _ => none
  | fuel + 1, s =>
    match skipSpace s with
    | '"' :: rest =>
      match stringBody skim [] rest with
      | none => none
      | some (name, rest) =>
        match skipSpace rest with
        | ':' :: rest =>
          match value (skimValue name) fuel rest with
          | none => none
          | some (v, rest) =>
            match skipSpace rest with
            | ',' :: rest =>
              (members skim skimValue fuel rest).map fun (ms, rest) => ((name, v) :: ms, rest)
            | '\x7d' :: rest => some ([(name, v)], rest)
            | _ => none
        | _ => none
    | _ => none

end

/-- Reads the value at the front of a text, with what follows it. -/
def parseFront? (s : String) : Option (Json × List Char) :=
  value false (s.toList.length + 1) s.toList

/-- Reads a whole text as one value. -/
def parse? (s : String) : Option Json :=
  match parseFront? s with
  | some (v, rest) => if rest.all isSpace then some v else none
  | none => none

/-- Reads a whole text as a structure with the named fields, which is an object, or an array that
gives the fields in order. Members with other names are skimmed and left out. -/
def fields? (names : List String) (s : String) : Option (List (String × Json)) :=
  match skipSpace s.toList with
  | '\x7b' :: rest =>
    let read := match skipSpace rest with
      | '\x7d' :: rest => some ([], rest)
      | rest => members false (fun name => !names.contains name) (rest.length + 1) rest
    match read with
    | some (ms, rest) =>
      if rest.all isSpace then some (ms.filter fun m => names.contains m.1) else none
    | none => none
  | _ =>
    match parse? s with
    | some (array vs) => if vs.length ≤ names.length then some (names.zip vs) else none
    | _ => none

end Json

end CourseQuery
