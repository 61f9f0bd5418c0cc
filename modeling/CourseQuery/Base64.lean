import CourseQuery.Bytes

/-!
# Base 64

A request carries an archive in base 64 with its standard alphabet. Three bytes become four
symbols; a shorter last group is padded with `=`. Decoding accepts exactly what encoding writes: the
padding must be there, the bits it hides must be zero, and nothing else may stand in the text.
-/

set_option autoImplicit false

namespace CourseQuery.Base64

/-- The symbol of a number below 64. -/
def symbol (n : Nat) : Char :=
  if n < 26 then Char.ofNat ('A'.toNat + n)
  else if n < 52 then Char.ofNat ('a'.toNat + (n - 26))
  else if n < 62 then Char.ofNat ('0'.toNat + (n - 52))
  else if n = 62 then '+'
  else '/'

/-- The number of a symbol. -/
def value? (c : Char) : Option Nat :=
  let n := c.toNat
  if 'A'.toNat ≤ n ∧ n ≤ 'Z'.toNat then some (n - 'A'.toNat)
  else if 'a'.toNat ≤ n ∧ n ≤ 'z'.toNat then some (n - 'a'.toNat + 26)
  else if '0'.toNat ≤ n ∧ n ≤ '9'.toNat then some (n - '0'.toNat + 52)
  else if c = '+' then some 62
  else if c = '/' then some 63
  else none

/-- The symbols of a run of bytes. -/
def encodeChars : Bytes → List Char
  | [] => []
  | [a] =>
    [symbol (a.toNat / 4), symbol (a.toNat % 4 * 16), '=', '=']
  | [a, b] =>
    [symbol (a.toNat / 4), symbol (a.toNat % 4 * 16 + b.toNat / 16), symbol (b.toNat % 16 * 4), '=']
  | a :: b :: c :: rest =>
    symbol (a.toNat / 4) :: symbol (a.toNat % 4 * 16 + b.toNat / 16) ::
      symbol (b.toNat % 16 * 4 + c.toNat / 64) :: symbol (c.toNat % 64) :: encodeChars rest

/-- The last group of symbols, which may be padded. -/
def decodeLast (a b c d : Char) : Option Bytes :=
  match value? a, value? b, value? c, value? d with
  | some a, some b, some c, some d =>
    some [UInt8.ofNat (a * 4 + b / 16), UInt8.ofNat (b % 16 * 16 + c / 4),
      UInt8.ofNat (c % 4 * 64 + d)]
  | some a, some b, some c, none =>
    if d = '=' ∧ c % 4 = 0 then
      some [UInt8.ofNat (a * 4 + b / 16), UInt8.ofNat (b % 16 * 16 + c / 4)]
    else none
  | some a, some b, none, none =>
    if c = '=' ∧ d = '=' ∧ b % 16 = 0 then some [UInt8.ofNat (a * 4 + b / 16)] else none
  | _, _, _, _ => none

/-- A group of symbols that is not the last, so has no padding. -/
def decodeFull (a b c d : Char) : Option Bytes :=
  match value? a, value? b, value? c, value? d with
  | some a, some b, some c, some d =>
    some [UInt8.ofNat (a * 4 + b / 16), UInt8.ofNat (b % 16 * 16 + c / 4),
      UInt8.ofNat (c % 4 * 64 + d)]
  | _, _, _, _ => none

/-- The bytes that symbols spell. -/
def decodeChars : List Char → Option Bytes
  | [] => some []
  | [a, b, c, d] => decodeLast a b c d
  | a :: b :: c :: d :: rest =>
    match decodeFull a b c d, decodeChars rest with
    | some group, some bytes => some (group ++ bytes)
    | _, _ => none
  | _ => none

/-- The base 64 text of a run of bytes. -/
def encode (bytes : Bytes) : String :=
  String.ofList (encodeChars bytes)

/-- The bytes of a base 64 text. -/
def decode? (s : String) : Option Bytes :=
  decodeChars s.toList

end CourseQuery.Base64
