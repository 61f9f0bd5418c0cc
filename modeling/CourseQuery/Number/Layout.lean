import CourseQuery.Number.Shortest

/-!
# The written form of a number

The shortest digits of a number are laid out in two ways. In a description of a condition they stand
positionally, however many zeros that takes. In a JSON document the point moves into an exponent
when it would lie too far from the digits, and a whole number keeps a `.0`. `Layout` holds exactly
these decisions.
-/

set_option autoImplicit false

namespace CourseQuery

/-- How the digits of a number are written. The point position `p` of digits `D` is the one with
value 0.D times 10^p. -/
structure Layout where
  /-- The point positions that are written without an exponent. -/
  positional : Int → Bool
  /-- What follows a whole number that is written without an exponent. -/
  wholeMark : String
  /-- Which of two equally near decimals is written. -/
  tie : Tie

namespace Layout

/-- Descriptions never use an exponent, and a whole number has no point. -/
def plain : Layout where
  positional _ := true
  wholeMark := ""
  tie := .up

/-- Documents use an exponent beyond sixteen places before the point or four zeros after it. -/
def document : Layout where
  positional p := -5 < p && p ≤ 16
  wholeMark := ".0"
  tie := .toEven

/-- A decimal without an exponent. -/
def positionalText (wholeMark : String) (d : Decimal) : String :=
  let digits := toString d.digits
  let point := (digits.length : Int) + d.exponent
  if 0 ≤ d.exponent then
    digits ++ String.ofList (List.replicate d.exponent.toNat '0') ++ wholeMark
  else if 0 < point then
    String.ofList (digits.toList.take point.toNat) ++ "." ++
      String.ofList (digits.toList.drop point.toNat)
  else
    "0." ++ String.ofList (List.replicate (-point).toNat '0') ++ digits

/-- A decimal with one digit before the point and an exponent. -/
def exponentText (d : Decimal) : String :=
  let digits := toString d.digits
  let point := (digits.length : Int) + d.exponent
  let fraction := digits.toList.drop 1
  String.ofList (digits.toList.take 1) ++
    (if fraction.isEmpty then "" else "." ++ String.ofList fraction) ++
    "e" ++ toString (point - 1)

/-- The text of a finite magnitude that is not zero. -/
def magnitudeText (layout : Layout) (m : Magnitude) : String :=
  let d := m.shortest layout.tie
  if layout.positional ((toString d.digits).length + d.exponent) then
    positionalText layout.wholeMark d
  else exponentText d

end Layout

namespace Binary64

/-- The text of a number in a description: `NaN`, `inf`, or the shortest digits that read back. -/
def plainText : Binary64 → String
  | nan => "NaN"
  | signed negative m =>
    (if negative then "-" else "") ++
      (if m = .infinity then "inf"
       else if m = .zero then "0"
       else Layout.plain.magnitudeText m)

/-- The text of a finite number in a document. -/
def documentText : Binary64 → String
  | nan => "null"
  | signed negative m =>
    if m = .infinity then "null"
    else
      (if negative then "-" else "") ++
        (if m = .zero then "0.0" else Layout.document.magnitudeText m)

end Binary64

end CourseQuery
