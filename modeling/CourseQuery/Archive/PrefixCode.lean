import CourseQuery.Archive.Bits

/-!
# Canonical prefix codes

A prefix code gives the symbols of an alphabet codes of different lengths. In a canonical code the
lengths tell everything: shorter codes come before longer ones, and codes of one length follow the
order of their symbols. The lengths say as well how much of the space of all codes is taken.
-/

set_option autoImplicit false

namespace CourseQuery

/-- A canonical prefix code: for each length from 1 on the symbols with codes of that length. -/
abbrev PrefixCode := List (Array Nat)

namespace PrefixCode

/-- The lengths that stand for symbols with a code. -/
def usedLengths (lengths : List Nat) : List Nat :=
  lengths.filter (· ≠ 0)

/-- The share of the code space that lengths up to `longest` take, in parts of which the whole has
`1 <<< longest`. -/
def filledSpace (longest : Nat) (lengths : List Nat) : Nat :=
  (usedLengths lengths).foldr (fun length n => (1 <<< (longest - length)) + n) 0

/-- The lengths, which are at most `longest`, fill the code space exactly. -/
def isComplete (longest : Nat) (lengths : List Nat) : Bool :=
  filledSpace longest lengths == 1 <<< longest

/-- The lengths are those of no symbol or of a sole symbol with a code of one bit. -/
def isTrivial (lengths : List Nat) : Bool :=
  usedLengths lengths == [] || usedLengths lengths == [1]

/-- The canonical code whose symbols have the given lengths, which are at most `longest`; zero means
that a symbol has no code. -/
def ofLengths (longest : Nat) (lengths : List Nat) : PrefixCode :=
  (List.range longest).map fun l =>
    ((lengths.zipIdx.filter fun (length, _) => length = l + 1).map Prod.snd).toArray

/-- Reads one symbol. `first` is the first code of the length at hand and `code` the bits read. -/
def symbolFrom? : PrefixCode → (first code : Nat) → Bits → Option (Nat × Bits)
  | [], _, _, _ => none
  | _ :: _, _, _, [] => none
  | symbols :: longer, first, code, bit :: bits =>
    let code := 2 * code + bit.toNat
    if code < first + symbols.size then (symbols[code - first]?).map fun s => (s, bits)
    else symbolFrom? longer (2 * (first + symbols.size)) code bits

/-- Reads one symbol. -/
def symbol? (code : PrefixCode) (bits : Bits) : Option (Nat × Bits) :=
  symbolFrom? code 0 0 bits

end PrefixCode

end CourseQuery
