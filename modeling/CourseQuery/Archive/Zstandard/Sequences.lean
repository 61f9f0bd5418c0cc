import CourseQuery.Archive.Zstandard.StateTable

/-!
# Sequences of a zstandard block

Behind its literals a block has sequences. A sequence takes some literals and then copies bytes that
stand at a distance before the end of the output. Its three numbers are written by three machines,
each as a symbol with a base and some bits that are added; the tables are fixed, have a single
state, are told, or are those of an earlier block. A distance may be one of the last three.
-/

set_option autoImplicit false

namespace CourseQuery.Zstandard

/-- The base of each symbol from some number on and the number of bits to add to it. -/
abbrev Bases := Array (Nat × Nat)

/-- The bases of numbers of literals. -/
def literalBases : Bases :=
  (Array.range 16).map (fun n => (n, 0)) ++
    #[(16, 1), (18, 1), (20, 1), (22, 1), (24, 2), (28, 2), (32, 3), (40, 3), (48, 4), (64, 6),
      (128, 7), (256, 8), (512, 9), (1024, 10), (2048, 11), (4096, 12), (8192, 13), (16384, 14),
      (32768, 15), (65536, 16)]

/-- The bases of lengths of copies. -/
def copyBases : Bases :=
  (Array.range 32).map (fun n => (n + 3, 0)) ++
    #[(35, 1), (37, 1), (39, 1), (41, 1), (43, 2), (47, 2), (51, 3), (59, 3), (67, 4), (83, 4),
      (99, 5), (131, 7), (259, 8), (515, 9), (1027, 10), (2051, 11), (4099, 12), (8195, 13),
      (16387, 14), (32771, 15), (65539, 16)]

/-- The bases of distances. -/
def distanceBases : Bases :=
  (Array.range 32).map fun n => (1 <<< n, n)

/-- A distribution given by numbers, zero standing for a rare symbol and others for one more than
the share. -/
def sharesOf (numbers : List Nat) : List Share :=
  numbers.map fun n => if n = 0 then .rare else .states (n - 1)

/-- What is known beforehand about the symbols for one of the three numbers. -/
structure Kind where
  bases : Bases
  /-- The greatest exponent of a table. -/
  longest : Nat
  fixed : StateTable

namespace Kind

/-- The symbols for numbers of literals. -/
def literals : Kind :=
  ⟨literalBases, 9, .ofShares 6 (sharesOf
    [5, 4, 3, 3, 3, 3, 3, 3, 3, 3, 3, 3, 3, 2, 2, 2, 3, 3, 3, 3, 3, 3, 3, 3, 3, 4, 3, 2, 2, 2, 2, 2,
      0, 0, 0, 0])⟩

/-- The symbols for distances. -/
def distances : Kind :=
  ⟨distanceBases, 8, .ofShares 5 (sharesOf
    [2, 2, 2, 2, 2, 2, 3, 3, 3, 2, 2, 2, 2, 2, 2, 2, 2, 2, 2, 2, 2, 2, 2, 2, 0, 0, 0, 0, 0])⟩

/-- The symbols for lengths of copies. -/
def copies : Kind :=
  ⟨copyBases, 9, .ofShares 6 (sharesOf
    [2, 5, 4, 3, 3, 3, 3, 3, 3, 2, 2, 2, 2, 2, 2, 2, 2, 2, 2, 2, 2, 2, 2, 2, 2, 2, 2, 2, 2, 2, 2, 2,
      2, 2, 2, 2, 2, 2, 2, 2, 2, 2, 2, 2, 2, 2, 0, 0, 0, 0, 0, 0, 0])⟩

/-- Reads a table of the given mode, `earlier` being that of an earlier block. -/
def table? (k : Kind) (mode : Nat) (earlier : Option StateTable) (bytes : Bytes) :
    Option (StateTable × Bytes) :=
  match mode with
  | 0 => some (k.fixed, bytes)
  | 1 => do
    let (symbol, bytes) ← bytes.takeNat? 1
    if k.bases.size ≤ symbol then none
    some (.single symbol, bytes)
  | 2 => StateTable.read? k.longest (k.bases.size - 1) bytes
  | _ => earlier.map fun table => (table, bytes)

/-- Reads the number that the symbol of a state begins. -/
def number? (k : Kind) (t : StateTable) (state : Nat) (bits : Bits) : Option (Nat × Bits) := do
  let (base, width) ← k.bases[(t.state state).symbol]?
  let (n, bits) ← bits.takeHigh? width
  some (base + n, bits)

end Kind

/-- The three tables of a block. -/
structure Tables where
  literals : StateTable
  distances : StateTable
  copies : StateTable

/-- The states of the three machines. -/
structure States where
  literals : Nat
  distances : Nat
  copies : Nat

/-- A sequence: how many literals it takes, how far back it copies from, and how many bytes. The
distances up to three stand for earlier ones and the others are greater by three. -/
structure Sequence where
  literals : Nat
  distance : Nat
  copied : Nat
deriving DecidableEq, Repr

namespace Tables

/-- Reads three tables, the modes of which are parts of a byte. -/
def read? (modes : Nat) (earlier : Option Tables) (bytes : Bytes) : Option (Tables × Bytes) := do
  if modes % 4 ≠ 0 then none
  let (literals, bytes) ←
    Kind.literals.table? (modes / 64) (earlier.map Tables.literals) bytes
  let (distances, bytes) ←
    Kind.distances.table? (modes / 16 % 4) (earlier.map Tables.distances) bytes
  let (copies, bytes) ← Kind.copies.table? (modes / 4 % 4) (earlier.map Tables.copies) bytes
  some (⟨literals, distances, copies⟩, bytes)

/-- Reads the first states. -/
def start? (t : Tables) (bits : Bits) : Option (States × Bits) := do
  let (literals, bits) ← t.literals.start? bits
  let (distances, bits) ← t.distances.start? bits
  let (copies, bits) ← t.copies.start? bits
  some (⟨literals, distances, copies⟩, bits)

/-- Reads the sequence that the states begin. -/
def sequence? (t : Tables) (s : States) (bits : Bits) : Option (Sequence × Bits) := do
  let (distance, bits) ← Kind.distances.number? t.distances s.distances bits
  let (copied, bits) ← Kind.copies.number? t.copies s.copies bits
  let (literals, bits) ← Kind.literals.number? t.literals s.literals bits
  some (⟨literals, distance, copied⟩, bits)

/-- Reads the next states. -/
def next? (t : Tables) (s : States) (bits : Bits) : Option (States × Bits) := do
  let (literals, bits) ← t.literals.next? s.literals bits
  let (copies, bits) ← t.copies.next? s.copies bits
  let (distances, bits) ← t.distances.next? s.distances bits
  some (⟨literals, distances, copies⟩, bits)

/-- Reads a number of sequences, which take up the bits. -/
def sequences? (t : Tables) :
    (count : Nat) → States → Bits → (read : Array Sequence) → Option (Array Sequence)
  | 0, _, bits, read => if bits.isEmpty then some read else none
  | count + 1, s, bits, read =>
    match t.sequence? s bits with
    | none => none
    | some (sequence, bits) =>
      match if count = 0 then some (s, bits) else t.next? s bits with
      | none => none
      | some (s, bits) => sequences? t count s bits (read.push sequence)

end Tables

/-- The last three distances, the latest first. -/
structure Distances where
  first : Nat
  second : Nat
  third : Nat
deriving DecidableEq, Repr

namespace Distances

/-- The distances before the first copy. -/
def initial : Distances := ⟨1, 4, 8⟩

/-- The distance that a sequence means, and the last three after it. A sequence without literals
counts the earlier ones from the second on, and then means the first less one. -/
def resolve (d : Distances) (s : Sequence) : Nat × Distances :=
  match if s.literals = 0 ∧ s.distance ≤ 3 then s.distance + 1 else s.distance with
  | 1 => (d.first, d)
  | 2 => (d.second, ⟨d.second, d.first, d.third⟩)
  | 3 => (d.third, ⟨d.third, d.first, d.second⟩)
  | n =>
    let distance := if s.distance ≤ 3 then d.first - 1 else n - 3
    (distance, ⟨distance, d.first, d.second⟩)

end Distances

/-- Copies bytes that stand at a distance before the end. -/
def copyBack (distance : Nat) : (count : Nat) → Array UInt8 → Array UInt8
  | 0, output => output
  | count + 1, output =>
    copyBack distance count (output.push (output.getD (output.size - distance) 0))

/-- The output of a block as far as sequences have been followed. -/
structure Progress where
  output : Array UInt8
  /-- The number of literals that are taken. -/
  taken : Nat
  distances : Distances

/-- Follows a sequence of a block whose output is at most `limit` bytes in all. -/
def Progress.follow? (literals : Array UInt8) (limit : Nat) (p : Progress) (s : Sequence) :
    Option Progress :=
  let taken := p.taken + s.literals
  let (distance, distances) := p.distances.resolve s
  let output := p.output ++ literals.extract p.taken taken
  if literals.size < taken ∨ limit < output.size + s.copied ∨ distance = 0 ∨
      output.size < distance then none
  else some ⟨copyBack distance s.copied output, taken, distances⟩

/-- Reads how many sequences there are. -/
def sequenceCount? (bytes : Bytes) : Option (Nat × Bytes) := do
  let (first, bytes) ← bytes.takeNat? 1
  if first < 128 then some (first, bytes)
  else if first < 255 then
    let (second, bytes) ← bytes.takeNat? 1
    some ((first - 128) * 256 + second, bytes)
  else
    let (more, bytes) ← bytes.takeNat? 2
    some (more + 0x7F00, bytes)

/-- Reads the sequences of a block and the tables that a later block may use again. -/
def readSequences? (earlier : Option Tables) (bytes : Bytes) :
    Option (Array Sequence × Option Tables) := do
  let (count, bytes) ← sequenceCount? bytes
  if count = 0 then
    if bytes.isEmpty then some (#[], earlier) else none
  else
    let (modes, bytes) ← bytes.takeNat? 1
    let (tables, bytes) ← Tables.read? modes earlier bytes
    let (states, bits) ← tables.start? (← backward? bytes)
    some (← tables.sequences? count states bits #[], some tables)

end CourseQuery.Zstandard
