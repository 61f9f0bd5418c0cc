import CourseQuery.Bytes

/-!
# Sequences of bits

Compressed data is read bit by bit. A form of data takes the bits of each byte in one of two orders,
the least or the greatest first, and builds its numbers in the same order.
-/

set_option autoImplicit false

namespace CourseQuery

/-- A sequence of bits. -/
abbrev Bits := List Bool

namespace Bits

/-- The bits of a run of bytes, the least bit of each byte first. -/
def lowFirst (bytes : Bytes) : Bits :=
  bytes.flatMap fun b => (List.range 8).map fun i => b.toNat.testBit i

/-- The bits of a run of bytes, the greatest bit of each byte first. -/
def highFirst (bytes : Bytes) : Bits :=
  bytes.flatMap fun b => (List.range 8).map fun i => b.toNat.testBit (7 - i)

/-- Cuts a sequence after `count` bits, if it has as many. -/
def cut? (count : Nat) (bits : Bits) : Option (Bits × Bits) :=
  if count ≤ bits.length then some (bits.splitAt count) else none

/-- Takes a number of `count` bits, its least bit first. -/
def takeLow? : (count : Nat) → Bits → Option (Nat × Bits)
  | 0, bits => some (0, bits)
  | _ + 1, [] => none
  | count + 1, bit :: bits =>
    (takeLow? count bits).map fun (n, bits) => (bit.toNat + 2 * n, bits)

/-- Takes `count` more bits of a number, its greatest bit first; `n` is the number so far. -/
def takeHighFrom? : (n count : Nat) → Bits → Option (Nat × Bits)
  | n, 0, bits => some (n, bits)
  | _, _ + 1, [] => none
  | n, count + 1, bit :: bits => takeHighFrom? (2 * n + bit.toNat) count bits

/-- Takes a number of `count` bits, its greatest bit first. -/
def takeHigh? (count : Nat) (bits : Bits) : Option (Nat × Bits) :=
  takeHighFrom? 0 count bits

end Bits

end CourseQuery
