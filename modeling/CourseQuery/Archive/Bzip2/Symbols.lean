import CourseQuery.Archive.PrefixCode

/-!
# The symbols of a bzip2 block

A block first tells which bytes it has, then how its symbols are coded: two to six prefix codes, and
for each fifty symbols a selector of the code they are written in. A symbol is a place in the list
of the bytes, whose byte moves to the front, or a digit of the number of times that the byte at the
front is repeated, or the end. The bytes that the symbols stand for are the last column of the
block.
-/

set_option autoImplicit false

namespace CourseQuery.Bzip2

/-- The greatest length of a code. -/
def longestCode : Nat := 20

/-- The number of symbols for which one selector holds. -/
def groupSize : Nat := 50

/-- The element at a place of a list, and the list with it at the front. -/
def moveToFront? {α : Type} (l : List α) (place : Nat) : Option (α × List α) :=
  (l[place]?).map fun a => (a, a :: l.eraseIdx place)

/-- Reads which bytes occur, sixteen flags for each range of sixteen that has any. `first` is the
first byte of the ranges at hand. -/
def usedFrom? : (first : Nat) → (ranges : List Bool) → Bits → Option (Bytes × Bits)
  | _, [], bits => some ([], bits)
  | first, false :: ranges, bits => usedFrom? (first + 16) ranges bits
  | first, true :: ranges, bits => do
    let (flags, bits) ← bits.cut? 16
    let here := (flags.zipIdx first).filterMap fun (used, b) =>
      if used then some (UInt8.ofNat b) else none
    let (rest, bits) ← usedFrom? (first + 16) ranges bits
    some (here ++ rest, bits)

/-- Reads which bytes occur, in order. -/
def usedBytes? (bits : Bits) : Option (Bytes × Bits) := do
  let (ranges, bits) ← bits.cut? 16
  usedFrom? 0 ranges bits

/-- Counts the bits that are set up to the next one that is not; there are fewer than `limit`. -/
def ones? : (limit : Nat) → Bits → Option (Nat × Bits)
  | 0, _ => none
  | _ + 1, [] => none
  | _ + 1, false :: bits => some (0, bits)
  | limit + 1, true :: bits => (ones? limit bits).map fun (n, bits) => (n + 1, bits)

/-- Reads selectors; `order` has the codes in the order in which they were selected last. -/
def selectors? : (count : Nat) → (order : List Nat) → Bits → Option (List Nat × Bits)
  | 0, _, bits => some ([], bits)
  | count + 1, order, bits => do
    let (place, bits) ← ones? order.length bits
    let (code, order) ← moveToFront? order place
    let (rest, bits) ← selectors? count order bits
    some (code :: rest, bits)

/-- Reads a length of a code, told by steps up and down from `length`, all of them lengths. -/
def codeLength? : (length : Nat) → Bits → Option (Nat × Bits)
  | _, [] => none
  | length, false :: bits =>
    if 1 ≤ length ∧ length ≤ longestCode then some (length, bits) else none
  | _, [true] => none
  | length, true :: down :: bits =>
    if 1 ≤ length ∧ length ≤ longestCode then
      codeLength? (if down then length - 1 else length + 1) bits
    else none

/-- Reads the lengths of a code, each told from the one before. -/
def codeLengths? : (count length : Nat) → Bits → Option (List Nat × Bits)
  | 0, _, bits => some ([], bits)
  | count + 1, length, bits => do
    let (length, bits) ← codeLength? length bits
    let (rest, bits) ← codeLengths? count length bits
    some (length :: rest, bits)

/-- Reads a number of codes for `symbols` symbols. -/
def codes? (symbols : Nat) : (count : Nat) → Bits → Option (List PrefixCode × Bits)
  | 0, bits => some ([], bits)
  | count + 1, bits => do
    let (length, bits) ← bits.takeHigh? 5
    let (lengths, bits) ← codeLengths? symbols length bits
    let (rest, bits) ← codes? symbols count bits
    some (PrefixCode.ofLengths longestCode lengths :: rest, bits)

/-- Reads symbols up to the ending, the next one by the first of the codes. -/
def symbols? (ending : Nat) :
    (codes : List PrefixCode) → Bits → (read : Array Nat) → Option (Array Nat × Bits)
  | [], _, _ => none
  | code :: codes, bits, read =>
    match code.symbol? bits with
    | none => none
    | some (s, bits) =>
      if s = ending then some (read, bits) else symbols? ending codes bits (read.push s)

/-- The last column of a block as far as it is known, and what decides on the next bytes. -/
structure Column where
  bytes : Array UInt8
  /-- The bytes that occur, those met last first. -/
  order : Bytes
  /-- How often the byte at the front is repeated, as far as the digits tell. -/
  repeats : Nat
  /-- What the next digit counts for. -/
  weight : Nat

namespace Column

/-- The column with the repeated byte spelled out, which has at most `limit` bytes. -/
def flush? (limit : Nat) (c : Column) : Option Column := do
  let b ← c.order.head?
  if limit < c.bytes.size + c.repeats then none
  some ⟨c.bytes ++ Array.replicate c.repeats b, c.order, 0, 1⟩

/-- The column after one more symbol. The first two are the digits one and two. -/
def add? (limit : Nat) (c : Column) (symbol : Nat) : Option Column :=
  if symbol ≤ 1 then
    some { c with repeats := c.repeats + (symbol + 1) * c.weight, weight := 2 * c.weight }
  else do
    let c ← c.flush? limit
    let (b, order) ← moveToFront? c.order (symbol - 1)
    if limit ≤ c.bytes.size then none
    some { c with bytes := c.bytes.push b, order }

end Column

/-- The last column that symbols stand for, with at most `limit` bytes, all of them used. -/
def columnOf? (limit : Nat) (used : Bytes) (symbols : Array Nat) : Option (Array UInt8) := do
  let column ← symbols.foldlM (Column.add? limit) ⟨#[], used, 0, 1⟩
  let column ← column.flush? limit
  some column.bytes

/-- Reads the last column of a block with at most `limit` bytes. -/
def lastColumn? (limit : Nat) (bits : Bits) : Option (Array UInt8 × Bits) := do
  let (used, bits) ← usedBytes? bits
  if used.isEmpty then none
  let (codeCount, bits) ← bits.takeHigh? 3
  if codeCount < 2 ∨ 6 < codeCount then none
  let (selectorCount, bits) ← bits.takeHigh? 15
  if selectorCount = 0 then none
  let (selectors, bits) ← selectors? selectorCount (List.range codeCount) bits
  let (codes, bits) ← codes? (used.length + 2) codeCount bits
  let selected := selectors.flatMap fun i => List.replicate groupSize (codes.getD i [])
  let (symbols, bits) ← symbols? (used.length + 1) selected bits #[]
  some (← columnOf? limit used symbols, bits)

end CourseQuery.Bzip2
