/-!
# Binary64 numbers

Averages and counts are IEEE 754 binary64 numbers, held here exactly. The magnitudes are numbered in
increasing order: code 0 is zero, code `infinityCode` is infinity, and the finite magnitude with
code `c` is `unitsOfCode c` times 2^-1074, the smallest positive one. So comparison is comparison of
codes, and rounding is a search for the nearest code, ties going to the even one.

A NaN carries no sign and no payload, since nothing in the library can tell two of them apart.
-/

set_option autoImplicit false

namespace CourseQuery

/-- The code of infinity; every smaller code is finite. -/
def infinityCode : Nat := 0x7FF0000000000000

/-- The number of codes from one power of two to the next, 2^52. Below twice this, every whole
number is a binary64 number. -/
def binade : Nat := 0x10000000000000

/-- One and `n` zeros. -/
def powerOfTen (n : Nat) : Nat :=
  Nat.pow 10 n

/-- The number one in units of 2^-1074. -/
def unitsOfOne : Nat := 1 <<< 1074

/-- The finite magnitude with code `c`, in units of 2^-1074. At `infinityCode` it is 2^1024, where
rounding begins to overflow. -/
def unitsOfCode (c : Nat) : Nat :=
  if c < binade then c else (binade + c % binade) <<< (c / binade - 1)

/-- The largest code whose magnitude is at most `u` units. -/
def floorCode (u : Nat) : Nat :=
  if u < 2 * binade then u else (u.log2 - 52) * binade + (u >>> (u.log2 - 52))

/-- The code nearest to `num / den` units, the even one of two equally near. -/
def roundCode (num den : Nat) : Nat :=
  let low := floorCode (num / den)
  let middle := den * (unitsOfCode low + unitsOfCode (low + 1))
  if 2 * num < middle then low
  else if middle < 2 * num then low + 1
  else low + low % 2

/-- The size of a binary64 number: zero, a finite magnitude or infinity. -/
structure Magnitude where
  code : Nat
  bounded : code ≤ infinityCode
deriving DecidableEq, Repr

namespace Magnitude

/-- The magnitude zero. -/
def zero : Magnitude := ⟨0, by decide⟩

/-- The magnitude beyond every finite one. -/
def infinity : Magnitude := ⟨infinityCode, Nat.le_refl _⟩

/-- The magnitude nearest to `num / den` units; what lies beyond the finite ones is infinity. -/
def ofUnits (num den : Nat) : Magnitude :=
  ⟨min (roundCode num den) infinityCode, Nat.min_le_right _ _⟩

/-- A finite magnitude in units of 2^-1074. -/
def units (m : Magnitude) : Nat := unitsOfCode m.code

/-- A magnitude is finite when its code is below that of infinity. -/
def isFinite (m : Magnitude) : Bool := m.code < infinityCode

/-- The magnitude nearest to `mantissa` times ten to the power `exponent`. The first two cases keep
the powers of ten small; the rounded answer would be the same. -/
def ofDecimal (mantissa : Nat) (exponent : Int) : Magnitude :=
  if mantissa = 0 then zero
  else if 310 < exponent then infinity
  else if (mantissa.log2 : Int) + 1 + 3 * exponent < -1080 then zero
  else if 0 ≤ exponent then ofUnits (mantissa * powerOfTen exponent.toNat * unitsOfOne) 1
  else ofUnits (mantissa * unitsOfOne) (powerOfTen (-exponent).toNat)

/-- The whole number a magnitude is, if it is one. -/
def toNat? (m : Magnitude) : Option Nat :=
  if m.isFinite && m.units % unitsOfOne == 0 then some (m.units / unitsOfOne) else none

end Magnitude

/-- A binary64 number up to the sign and payload of a NaN. -/
inductive Binary64 where
  | nan
  | signed (negative : Bool) (magnitude : Magnitude)
deriving DecidableEq, Repr

namespace Binary64

/-- The number zero with a positive sign. -/
def zero : Binary64 := .signed false .zero

instance : Inhabited Binary64 := ⟨zero⟩

/-- The place of a number in the order, the same for both zeros; a NaN has none. -/
def rank : Binary64 → Option Int
  | nan => none
  | signed negative m => some (if negative then -(m.code : Int) else m.code)

/-- Equality of values: the zeros are equal and a NaN differs from itself. -/
def equal (x y : Binary64) : Bool :=
  match x.rank, y.rank with
  | some a, some b => a == b
  | _, _ => false

/-- The first number is below the second; false when one is a NaN. -/
def less (x y : Binary64) : Bool :=
  match x.rank, y.rank with
  | some a, some b => a < b
  | _, _ => false

/-- The first number is at most the second; false when one is a NaN. -/
def atMost (x y : Binary64) : Bool :=
  match x.rank, y.rank with
  | some a, some b => a ≤ b
  | _, _ => false

/-- Neither infinite nor a NaN. -/
def isFinite : Binary64 → Bool
  | nan => false
  | signed _ m => m.isFinite

/-- The integer a number is, if it is one; both zeros are the integer 0. -/
def toInt? : Binary64 → Option Int
  | nan => none
  | signed negative m => m.toNat?.map fun n => if negative then -(n : Int) else n

/-- The number nearest to `mantissa` times ten to the power `exponent`, with the given sign. -/
def ofDecimal (negative : Bool) (mantissa : Nat) (exponent : Int) : Binary64 :=
  .signed negative (.ofDecimal mantissa exponent)

/-- The number nearest to an integer. -/
def ofInt (i : Int) : Binary64 :=
  ofDecimal (i < 0) i.natAbs 0

end Binary64

end CourseQuery
