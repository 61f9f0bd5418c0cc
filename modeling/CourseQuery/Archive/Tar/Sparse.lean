import CourseQuery.Archive.Tar.Header

/-!
# Sparse members of a tar archive

The data of a sparse file holds only some pieces of it, and the map in the header says where these
stand; zeros fill the rest. The header has four places for pieces. Further blocks of the map, with
twenty-one places each, may follow the header before the data begins.

`mapBlocks?` gives the number of these blocks, if the pieces stand in order, all but the last fill
whole blocks of the data, and together they take up the data and reach to the end of the file.
-/

set_option autoImplicit false

namespace CourseQuery.Tar

/-- A piece of a sparse file: where it stands in the file and how long it is. -/
structure Piece where
  start : Nat
  length : Nat
deriving DecidableEq, Repr

/-- The size of a place for a piece. -/
def placeSize : Nat := 24

/-- Reads a piece from its place. -/
def Piece.read? (place : Bytes) : Option Piece := do
  let start ← number? (part place 0 12)
  let length ← number? (part place 12 placeSize)
  some ⟨start, length⟩

/-- A place holds a piece, neither of its numbers being left out. -/
def isTaken (place : Bytes) : Bool :=
  place.headD 0 != 0 && (place.drop 12).headD 0 != 0

/-- Reads the pieces from a number of places. -/
def pieces? (count : Nat) (bytes : Bytes) : Option (List Piece) :=
  let places := (List.range count).map fun i => part bytes (placeSize * i) (placeSize * (i + 1))
  (places.filter isTaken).mapM Piece.read?

/-- Reads blocks of a map: their pieces and their number. -/
def continuation? (bytes : Bytes) : Option (List Piece × Nat) :=
  if _h : bytes.length < blockSize then none
  else
    match pieces? 21 bytes with
    | none => none
    | some pieces =>
      if part bytes 504 505 = [1] then
        match continuation? (bytes.drop blockSize) with
        | none => none
        | some (more, count) => some (pieces ++ more, count + 1)
      else some (pieces, 1)
termination_by bytes.length
decreasing_by
  have hblock : 0 < blockSize := by decide
  rw [List.length_drop]
  omega

/-- How far the pieces of a sparse file reach and how much of its data they leave. -/
structure Coverage where
  reach : Nat
  left : Nat
deriving DecidableEq, Repr

/-- The coverage after one more piece of a file with `size` bytes of data. A piece stands behind the
ones before it, its end has at most eight bytes, and its data begins with a block. -/
def Coverage.add? (size : Nat) (c : Coverage) (p : Piece) : Option Coverage :=
  if p.length ≠ 0 ∧ (size - c.left) % blockSize ≠ 0 then none
  else if p.start < c.reach ∨ UInt64.size ≤ p.start + p.length ∨ c.left < p.length then none
  else some ⟨p.start + p.length, c.left - p.length⟩

namespace Header

/-- The size of a sparse file, with what its pieces leave out. -/
def fileSize? (h : Header) : Option Nat :=
  number? (part h.block 483 495)

/-- The pieces of a sparse file and the number of blocks of the map behind the header. -/
def map? (h : Header) (body : Bytes) : Option (List Piece × Nat) := do
  let first ← pieces? 4 (h.block.drop 386)
  if part h.block 482 483 = [1] then
    let (more, count) ← continuation? body
    some (first ++ more, count)
  else some (first, 0)

/-- The number of blocks of the map that follow the header of a member with `size` bytes of data.
Only a sparse file has a map. -/
def mapBlocks? (h : Header) (size : Nat) (body : Bytes) : Option Nat :=
  if h.type ≠ 'S' then some 0
  else if h.format ≠ .gnu then none
  else do
    let (pieces, count) ← h.map? body
    let coverage ← pieces.foldlM (Coverage.add? size) ⟨0, size⟩
    let fileSize ← h.fileSize?
    if coverage = ⟨fileSize, 0⟩ then some count else none

end Header

end CourseQuery.Tar
