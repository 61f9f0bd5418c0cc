import CourseQuery.Number.Numeral

/-!
# Reading numerals by scaling

The numerals of a document are read in two steps. The leading digits, as many as stay within 64
bits, make a whole number, the significand. Its binary64 number is then scaled, by a product with a
power of ten or a quotient by one. The significand, the power and the result of each step are
rounded, so the number read may lie a little off the nearest one. It is the nearest one when the
significand and the power of ten are exact and there is one step.
-/

set_option autoImplicit false

namespace CourseQuery

namespace Magnitude

/-- The product of two finite magnitudes. -/
def mul (a b : Magnitude) : Magnitude :=
  ofUnits (a.units * b.units) unitsOfOne

/-- The quotient of two finite magnitudes, of which the second is not zero. -/
def div (a b : Magnitude) : Magnitude :=
  ofUnits (a.units * unitsOfOne) b.units

/-- The magnitude nearest to a power of ten. -/
def tenTo (exponent : Nat) : Magnitude :=
  ofDecimal 1 exponent

/-- The exponent of the greatest finite power of ten, which is the most that one step can scale. -/
def longestStep : Nat := 308

/-- Scales a magnitude up. Beyond one step everything but zero is out of range. -/
def scaleUp (m : Magnitude) (exponent : Nat) : Magnitude :=
  if exponent ≤ longestStep then m.mul (tenTo exponent)
  else if m = zero then zero
  else infinity

/-- Scales a magnitude down, step by step until nothing is left of it. -/
def scaleDown (m : Magnitude) (exponent : Nat) : Magnitude :=
  if _h : exponent ≤ longestStep then m.div (tenTo exponent)
  else if m = zero then zero
  else scaleDown (m.div (tenTo longestStep)) (exponent - longestStep)
termination_by exponent
decreasing_by
  have hstep : 0 < longestStep := by decide
  omega

/-- Scales a magnitude by a power of ten. -/
def scale (m : Magnitude) (exponent : Int) : Magnitude :=
  if 0 ≤ exponent then m.scaleUp exponent.toNat else m.scaleDown (-exponent).toNat

end Magnitude

namespace Numeral

/-- Appends digits to a significand as long as it stays within 64 bits, and counts the digits that
are left over. -/
def gather (significand : Nat) : List Char → Nat × Nat
  | [] => (significand, 0)
  | c :: rest =>
    let longer := 10 * significand + digitsValue [c]
    if longer < UInt64.size then gather longer rest else (significand, rest.length + 1)

/-- The number got by scaling the significand of a numeral; infinity is what is out of range. Digits
left over before the point count for the power of ten and those behind it are dropped. -/
def scaledValue (n : Numeral) : Binary64 :=
  let (front, skipped) := gather 0 n.whole
  let (significand, dropped) := gather front n.fraction
  let exponent := n.exponent + skipped - (n.fraction.length - dropped)
  .signed n.negative ((Magnitude.ofDecimal significand 0).scale exponent)

end Numeral

end CourseQuery
