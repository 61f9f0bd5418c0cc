import CourseQuery.Archive.PrefixCode

/-!
# Deflated data

The deflate format of compressed data. Data is a sequence of bits, least bit of each byte first, in
blocks: stored bytes, or symbols of a fixed or described pair of canonical prefix codes. A symbol
is a byte, the end of the block, or a copy of earlier output; zeros stand before the output.
`inflate?` gives the bytes that the data stands for and nothing when the data breaks the format;
what follows the last block is not looked at.
-/

set_option autoImplicit false

namespace CourseQuery.Inflate

/-- The greatest length of a code. -/
def longestCode : Nat := 15

/-- The code of symbols of a block with the given lengths, which fill it or are trivial. -/
def symbolCode? (lengths : List Nat) : Option PrefixCode :=
  if PrefixCode.isComplete longestCode lengths || PrefixCode.isTrivial lengths then
    some (PrefixCode.ofLengths longestCode lengths)
  else none

/-- The base and the number of extra bits of each length symbol from 257 on. -/
def lengthTable : Array (Nat × Nat) :=
  #[(3, 0), (4, 0), (5, 0), (6, 0), (7, 0), (8, 0), (9, 0), (10, 0), (11, 1), (13, 1), (15, 1),
    (17, 1), (19, 2), (23, 2), (27, 2), (31, 2), (35, 3), (43, 3), (51, 3), (59, 3), (67, 4),
    (83, 4), (99, 4), (115, 4), (131, 5), (163, 5), (195, 5), (227, 5), (258, 0)]

/-- The base and the number of extra bits of each distance symbol. -/
def distanceTable : Array (Nat × Nat) :=
  #[(1, 0), (2, 0), (3, 0), (4, 0), (5, 1), (7, 1), (9, 2), (13, 2), (17, 3), (25, 3), (33, 4),
    (49, 4), (65, 5), (97, 5), (129, 6), (193, 6), (257, 7), (385, 7), (513, 8), (769, 8),
    (1025, 9), (1537, 9), (2049, 10), (3073, 10), (4097, 11), (6145, 11), (8193, 12), (12289, 12),
    (16385, 13), (24577, 13)]

/-- Reads the extra bits of a length or distance and gives its value. -/
def valueOf? (table : Array (Nat × Nat)) (index : Nat) (bits : Bits) : Option (Nat × Bits) :=
  match table[index]? with
  | none => none
  | some (base, extra) => (Bits.takeLow? extra bits).map fun (n, bits) => (base + n, bits)

/-- The byte that stands `distance` before the end of the output; zeros stand before its
beginning. -/
def byteBack (distance : Nat) (output : Array UInt8) : UInt8 :=
  if distance ≤ output.size then output.getD (output.size - distance) 0 else 0

/-- Repeats `length` bytes that stand `distance` before the end of the output. -/
def copy (distance : Nat) : (length : Nat) → Array UInt8 → Array UInt8
  | 0, output => output
  | length + 1, output => copy distance length (output.push (byteBack distance output))

/-- Reads the symbols of a block. Every symbol takes a bit, so the number of bits is fuel enough. -/
def symbols? (literals distances : PrefixCode) :
    (fuel : Nat) → Bits → Array UInt8 → Option (Array UInt8 × Bits)
  | 0, _, _ => none
  | fuel + 1, bits, output =>
    match literals.symbol? bits with
    | none => none
    | some (s, bits) =>
      if s < 256 then symbols? literals distances fuel bits (output.push (UInt8.ofNat s))
      else if s = 256 then some (output, bits)
      else
        match valueOf? lengthTable (s - 257) bits with
        | none => none
        | some (length, bits) =>
          match distances.symbol? bits with
          | none => none
          | some (d, bits) =>
            match valueOf? distanceTable d bits with
            | none => none
            | some (distance, bits) =>
              symbols? literals distances fuel bits (copy distance length output)

/-- The code of the literals of a fixed block. -/
def fixedLiterals : PrefixCode :=
  PrefixCode.ofLengths longestCode
    (List.replicate 144 8 ++ List.replicate 112 9 ++ List.replicate 24 7 ++ List.replicate 8 8)

/-- The code of the distances of a fixed block. -/
def fixedDistances : PrefixCode :=
  PrefixCode.ofLengths longestCode (List.replicate 32 5)

/-- The order in which the lengths of the code of lengths are given. -/
def lengthOrder : List Nat :=
  [16, 17, 18, 0, 8, 7, 9, 6, 10, 5, 11, 4, 12, 3, 13, 2, 14, 1, 15]

/-- Takes `count` numbers of three bits. -/
def takeTriples? : (count : Nat) → Bits → Option (List Nat × Bits)
  | 0, bits => some ([], bits)
  | count + 1, bits => do
    let (n, bits) ← Bits.takeLow? 3 bits
    let (ns, bits) ← takeTriples? count bits
    some (n :: ns, bits)

/-- Reads code lengths up to a total; `done` are those already read, last first. -/
def lengths? (code : PrefixCode) (total : Nat) :
    (fuel : Nat) → Bits → (done : List Nat) → Option (List Nat × Bits)
  | 0, _, _ => none
  | fuel + 1, bits, done =>
    if done.length = total then some (done.reverse, bits)
    else if total < done.length then none
    else do
      let (s, bits) ← code.symbol? bits
      if s < 16 then lengths? code total fuel bits (s :: done)
      else if s = 16 then
        let last ← done.head?
        let (n, bits) ← Bits.takeLow? 2 bits
        lengths? code total fuel bits (List.replicate (3 + n) last ++ done)
      else if s = 17 then
        let (n, bits) ← Bits.takeLow? 3 bits
        lengths? code total fuel bits (List.replicate (3 + n) 0 ++ done)
      else
        let (n, bits) ← Bits.takeLow? 7 bits
        lengths? code total fuel bits (List.replicate (11 + n) 0 ++ done)

/-- The most literals that a block may describe. -/
def literalLimit : Nat := 286

/-- The most distances that a block may describe. -/
def distanceLimit : Nat := 30

/-- Reads the code of the lengths of a described block, which fills its space. -/
def lengthCode? (count : Nat) (bits : Bits) : Option (PrefixCode × Bits) := do
  let (triples, bits) ← takeTriples? count bits
  let given := lengthOrder.zip triples
  let lengths := (List.range 19).map fun i => (given.lookup i).getD 0
  if PrefixCode.isComplete longestCode lengths then
    some (PrefixCode.ofLengths longestCode lengths, bits)
  else none

/-- Reads the two codes that a block describes. -/
def describedCodes? (bits : Bits) : Option ((PrefixCode × PrefixCode) × Bits) := do
  let (literalCount, bits) ← Bits.takeLow? 5 bits
  let (distanceCount, bits) ← Bits.takeLow? 5 bits
  let (lengthCount, bits) ← Bits.takeLow? 4 bits
  let literalCount := literalCount + 257
  let distanceCount := distanceCount + 1
  if literalLimit < literalCount ∨ distanceLimit < distanceCount then none
  let (code, bits) ← lengthCode? (lengthCount + 4) bits
  let total := literalCount + distanceCount
  let (all, bits) ← lengths? code total (total + 1) bits []
  let literals ← symbolCode? (all.take literalCount)
  let distances ← symbolCode? (all.drop literalCount)
  some ((literals, distances), bits)

/-- Takes `count` whole bytes. -/
def takeBytes? : (count : Nat) → Bits → Array UInt8 → Option (Array UInt8 × Bits)
  | 0, bits, output => some (output, bits)
  | count + 1, bits, output =>
    match Bits.takeLow? 8 bits with
    | none => none
    | some (b, bits) => takeBytes? count bits (output.push (UInt8.ofNat b))

/-- Reads a stored block, which begins at the next whole byte. -/
def stored? (bits : Bits) (output : Array UInt8) : Option (Array UInt8 × Bits) := do
  let (length, bits) ← Bits.takeLow? 16 (bits.drop (bits.length % 8))
  let (complement, bits) ← Bits.takeLow? 16 bits
  if length + complement = 0xFFFF then takeBytes? length bits output else none

/-- Reads one block of the given type. -/
def block? (type : Nat) (bits : Bits) (output : Array UInt8) : Option (Array UInt8 × Bits) :=
  match type with
  | 0 => stored? bits output
  | 1 => symbols? fixedLiterals fixedDistances (bits.length + 1) bits output
  | 2 => do
    let ((literals, distances), bits) ← describedCodes? bits
    symbols? literals distances (bits.length + 1) bits output
  | _ => none

/-- Reads blocks up to the last. Every block takes bits, so their number is fuel enough. -/
def blocks? : (fuel : Nat) → Bits → Array UInt8 → Option (Array UInt8)
  | 0, _, _ => none
  | fuel + 1, bits, output => do
    let (last, bits) ← Bits.takeLow? 1 bits
    let (type, bits) ← Bits.takeLow? 2 bits
    let (output, bits) ← block? type bits output
    if last = 1 then some output else blocks? fuel bits output

/-- The bytes that deflated data stands for. -/
def inflate? (bytes : Bytes) : Option Bytes :=
  let bits := Bits.lowFirst bytes
  (blocks? (bits.length + 1) bits #[]).map Array.toList

end CourseQuery.Inflate
