import CourseQuery.Number.Binary64

/-!
# Reading numerals

Three grammars of numbers occur. A bound in a sentence is *plain*: an optional minus, digits, and
perhaps a point and more digits. A count in a row is an *integer* that fits in 64 bits. An average
in a row is a *general* decimal, which may lack digits on one side of the point, carry an exponent,
or name infinity or a NaN. Each reader takes a whole text and gives no number unless all of it
fits.
-/

set_option autoImplicit false

namespace CourseQuery

/-- A decimal numeral: sign, digits before and after the point, and the power of ten. -/
structure Numeral where
  negative : Bool
  whole : List Char
  fraction : List Char
  exponent : Int
deriving DecidableEq, Repr

namespace Numeral

/-- The number that a run of digits denotes. -/
def digitsValue (digits : List Char) : Nat :=
  digits.foldl (fun n c => 10 * n + (c.toNat - '0'.toNat)) 0

/-- A run of digits that is not empty. -/
def allDigits (s : List Char) : Bool :=
  !s.isEmpty && s.all Char.isDigit

/-- The number nearest to what a numeral denotes. -/
def value (n : Numeral) : Binary64 :=
  .ofDecimal n.negative (digitsValue (n.whole ++ n.fraction)) (n.exponent - n.fraction.length)

/-- Splits off the characters before the first one that satisfies `p`; the rest begins with it. -/
def cutAt (p : Char → Bool) (s : List Char) : List Char × List Char :=
  (s.takeWhile (!p ·), s.dropWhile (!p ·))

/-- Takes a leading minus. -/
def takeMinus : List Char → Bool × List Char
  | '-' :: rest => (true, rest)
  | s => (false, s)

/-- Takes a leading plus or minus. -/
def takeSign : List Char → Bool × List Char
  | '+' :: rest => (false, rest)
  | s => takeMinus s

/-- Reads `-?digits[.digits]`. -/
def plain? (s : List Char) : Option Numeral :=
  let (negative, body) := takeMinus s
  let (whole, tail) := cutAt (· == '.') body
  match tail with
  | [] => if allDigits whole then some ⟨negative, whole, [], 0⟩ else none
  | _ :: fraction =>
    if allDigits whole && allDigits fraction then some ⟨negative, whole, fraction, 0⟩ else none

/-- The exponent from which on no more digits are taken up. It is far out of range for a numeral
that is not itself that long. -/
def exponentLimit : Nat := 0x10000

/-- The exponent that a run of digits denotes. Digits count until the exponent reaches
`exponentLimit`, and those behind them are passed over. -/
def exponentValue (digits : List Char) : Nat :=
  digits.foldl (fun n c => if n < exponentLimit then 10 * n + digitsValue [c] else n) 0

/-- Reads a signed exponent. -/
def exponent? (s : List Char) : Option Int :=
  let (negative, digits) := takeSign s
  if allDigits digits then
    some (if negative then -(exponentValue digits : Int) else exponentValue digits)
  else none

/-- Reads the digits and exponent of a general decimal. -/
def general? (negative : Bool) (s : List Char) : Option Numeral :=
  let (mantissa, tail) := cutAt (fun c => c == 'e' || c == 'E') s
  let (whole, point) := cutAt (· == '.') mantissa
  let fraction := point.drop 1
  let exponent := match tail with
    | [] => some 0
    | _ :: digits => exponent? digits
  if allDigits (whole ++ fraction) then
    exponent.map fun e => ⟨negative, whole, fraction, e⟩
  else none

end Numeral

namespace Binary64

/-- Reads the bound of a numeric condition. -/
def ofPlain? (s : String) : Option Binary64 :=
  (Numeral.plain? s.toList).map Numeral.value

/-- Reads a general decimal: digits with a point anywhere among them, an optional exponent, or one
of the words for infinity and NaN in any case, after an optional sign. -/
def ofGeneral? (s : String) : Option Binary64 :=
  let (negative, body) := Numeral.takeSign s.toList
  let word := String.ofList (body.map Char.toLower)
  if word = "inf" ∨ word = "infinity" then some (.signed negative .infinity)
  else if word = "nan" then some .nan
  else (Numeral.general? negative body).map Numeral.value

end Binary64

/-- Reads an integer of 64 bits: an optional sign and digits. -/
def int64? (s : String) : Option Int :=
  let (negative, digits) := Numeral.takeSign s.toList
  let n : Int := Numeral.digitsValue digits
  let i := if negative then -n else n
  if Numeral.allDigits digits ∧ Int64.minValue.toInt ≤ i ∧ i ≤ Int64.maxValue.toInt then
    some i
  else none

end CourseQuery
