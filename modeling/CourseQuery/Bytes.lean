/-!
# Runs of bytes

Archives and stored files are runs of bytes. The readers of archives take whole numbers from the
front of a run, least byte first, or cut a run at a length it must reach.
-/

set_option autoImplicit false

namespace CourseQuery

/-- A run of bytes. -/
abbrev Bytes := List UInt8

namespace Bytes

/-- The number a run of bytes denotes, its least byte first. -/
def littleEndian : Bytes → Nat
  | [] => 0
  | b :: rest => b.toNat + 256 * littleEndian rest

/-- The `count` bytes of a number, its least byte first. -/
def ofNat : (count : Nat) → Nat → Bytes
  | 0, _ => []
  | count + 1, n => UInt8.ofNat (n % 256) :: ofNat count (n / 256)

/-- Cuts a run after `count` bytes, if it has as many. -/
def cut? (count : Nat) (bytes : Bytes) : Option (Bytes × Bytes) :=
  if count ≤ bytes.length then some (bytes.splitAt count) else none

/-- Takes a number of `count` bytes, its least byte first. -/
def takeNat? (count : Nat) (bytes : Bytes) : Option (Nat × Bytes) :=
  (cut? count bytes).map fun (front, rest) => (littleEndian front, rest)

/-- The bytes of a text all of whose characters are below U+0080. -/
def ofAscii (s : String) : Bytes :=
  s.toList.map fun c => UInt8.ofNat c.toNat

/-- Bytes written for a number read back as the number, as far as they can hold it. -/
theorem littleEndian_ofNat (count n : Nat) :
    littleEndian (ofNat count n) = n % Nat.pow 256 count := by
  induction count generalizing n with
  | zero => exact (Nat.mod_one n).symm
  | succ count ih =>
    have hbyte : (UInt8.ofNat (n % 256)).toNat = n % 256 :=
      UInt8.toNat_ofNat_of_lt' (Nat.mod_lt _ (by decide))
    rw [ofNat, littleEndian, ih, hbyte, ← Nat.mod_mul, Nat.mul_comm]
    rfl

/-- A number takes as many bytes as it is given. -/
theorem length_ofNat (count n : Nat) : (ofNat count n).length = count := by
  induction count generalizing n with
  | zero => rfl
  | succ count ih => simp [ofNat, ih]

end Bytes

end CourseQuery
