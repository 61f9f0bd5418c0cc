import CourseQuery.Number.Binary64

/-!
# The fewest digits that read back

A finite magnitude is written with the fewest decimal digits that round to it again. The search goes
down the decimal grids 10^e from one coarser than the magnitude itself: on each it tries the two
neighbours of the exact value, and the first grid on which one of them rounds back wins, the nearer
of two. On the grid 10^-1074 every magnitude is exact, so the search cannot fail.
-/

set_option autoImplicit false

namespace CourseQuery

/-- A decimal with the value `digits` times ten to the power `exponent`. -/
structure Decimal where
  digits : Nat
  exponent : Int
deriving DecidableEq, Repr

/-- Which of two equally near decimals is written. -/
inductive Tie where
  | up
  | toEven
deriving DecidableEq, Repr

namespace Magnitude

/-- The exact value on the grid 10^`exponent`: numerator and denominator of the grid coordinate. -/
def gridRatio (m : Magnitude) (exponent : Int) : Nat × Nat :=
  if 0 ≤ exponent then (m.units, unitsOfOne * powerOfTen exponent.toNat)
  else (m.units * powerOfTen (-exponent).toNat, unitsOfOne)

/-- The decimal on the grid 10^`exponent` that is written for `m`, if one rounds back to it. -/
def onGrid (tie : Tie) (m : Magnitude) (exponent : Int) : Option Decimal :=
  let (num, den) := m.gridRatio exponent
  let low := num / den
  let lowReads := ofDecimal low exponent = m
  let highReads := ofDecimal (low + 1) exponent = m
  let below := 2 * (num % den)
  let highNearer := den < below || (den == below && (tie == .up || low % 2 == 1))
  if lowReads ∧ (highReads → highNearer = false) then some ⟨low, exponent⟩
  else if highReads then some ⟨low + 1, exponent⟩
  else none

/-- Tries the grids from 10^`exponent` downwards. -/
def searchGrids (tie : Tie) (m : Magnitude) : (fuel : Nat) → (exponent : Int) → Decimal
  | 0, _ => ⟨m.units * Nat.pow 5 1074, -1074⟩
  | fuel + 1, exponent =>
    match m.onGrid tie exponent with
    | some decimal => decimal
    | none => searchGrids tie m fuel (exponent - 1)

/-- The power of ten at which the search begins; it is above the magnitude. -/
def topExponent (m : Magnitude) : Int :=
  ((m.units.log2 : Int) - 1073) * 30103 / 100000 + 2

/-- The decimal with the fewest digits that rounds to `m`. -/
def shortest (tie : Tie) (m : Magnitude) : Decimal :=
  searchGrids tie m (m.topExponent + 1074).toNat m.topExponent

end Magnitude

end CourseQuery
