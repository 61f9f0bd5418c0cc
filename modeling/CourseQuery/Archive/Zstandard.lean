import CourseQuery.Archive.Zstandard.Digest
import CourseQuery.Archive.Zstandard.Literals
import CourseQuery.Archive.Zstandard.Sequences

/-!
# Data compressed by zstandard

Data compressed by zstandard is a sequence of frames, of which some may only be there to be skipped.
A frame has blocks: bytes that are stored, one byte repeated, or literals with sequences that mix
them with copies of earlier output. A frame may tell the size and the digest of its content.

`decompress?` gives the bytes that the data stands for and nothing when the data breaks the format,
asks for a dictionary, or wants more of the past to be kept than is allowed.
-/

set_option autoImplicit false

namespace CourseQuery.Zstandard

/-- The mark before a frame. -/
def frameMark : Nat := 0xFD2FB528

/-- The mark before a frame to be skipped, the last four bits left out. -/
def skippedMark : Nat := 0x184D2A5

/-- The greatest part of the past that a frame may want to be kept. -/
def longestWindow : Nat := (1 <<< 27) + 1

/-- The greatest size of a block. -/
def longestBlock : Nat := 1 <<< 17

/-- What a frame tells before its blocks. -/
structure FrameHeader where
  window : Nat
  size : Option Nat
  digested : Bool
deriving DecidableEq, Repr

/-- The window that a byte stands for. -/
def windowOf (n : Nat) : Nat :=
  let base := 1 <<< (10 + n / 8)
  base + base / 8 * (n % 8)

/-- Reads the size of the content, which is left out in one form of the header. -/
def contentSize? (form : Nat) (whole : Bool) (bytes : Bytes) : Option (Option Nat × Bytes) :=
  match form with
  | 0 =>
    if whole then (bytes.takeNat? 1).map fun (n, bytes) => (some n, bytes)
    else some (none, bytes)
  | 1 => (bytes.takeNat? 2).map fun (n, bytes) => (some (n + 256), bytes)
  | 2 => (bytes.takeNat? 4).map fun (n, bytes) => (some n, bytes)
  | _ => (bytes.takeNat? 8).map fun (n, bytes) => (some n, bytes)

/-- Reads what a frame tells before its blocks. A frame that is kept as a whole has no window of its
own. -/
def FrameHeader.read? (bytes : Bytes) : Option (FrameHeader × Bytes) := do
  let (flags, bytes) ← bytes.takeNat? 1
  let whole := flags.testBit 5
  if flags.testBit 3 then none
  let (window, bytes) ← bytes.takeNat? (if whole then 0 else 1)
  let dictionaryLength := if flags % 4 = 3 then 4 else flags % 4
  let (dictionary, bytes) ← bytes.takeNat? dictionaryLength
  let (size, bytes) ← contentSize? (flags / 64) whole bytes
  let window := if whole then size.getD 0 else windowOf window
  if dictionary ≠ 0 ∨ longestWindow < window then none
  some (⟨window, size, flags.testBit 2⟩, bytes)

/-- A frame as far as its blocks are read. -/
structure Frame where
  output : Array UInt8
  distances : Distances
  code : Option ByteCode
  tables : Option Tables

namespace Frame

/-- The frame before the first block. -/
def initial : Frame := ⟨#[], .initial, none, none⟩

/-- The frame after a block of literals and sequences, with at most `limit` bytes of output. -/
def compressed? (limit : Nat) (f : Frame) (bytes : Bytes) : Option Frame := do
  let (literals, bytes) ← Literals.read? f.code bytes
  let (sequences, tables) ← readSequences? f.tables bytes
  let limit := f.output.size + limit
  let progress ← sequences.foldlM (Progress.follow? literals.bytes limit) ⟨f.output, 0, f.distances⟩
  let output := progress.output ++ literals.bytes.extract progress.taken literals.bytes.size
  if limit < output.size then none
  some ⟨output, progress.distances, literals.code, tables⟩

/-- The frame after a block of the given type, with at most `limit` bytes of output, and the bytes
behind the block. A block without bytes leaves the frame as it is. -/
def block? (limit type size : Nat) (f : Frame) (bytes : Bytes) : Option (Frame × Bytes) :=
  match type with
  | 0 => do
    if limit < size then none
    let (front, bytes) ← bytes.cut? size
    some ({ f with output := f.output ++ front.toArray }, bytes)
  | 1 => do
    if limit < size then none
    let (b, bytes) ← bytes.takeNat? 1
    some ({ f with output := f.output ++ Array.replicate size (UInt8.ofNat b) }, bytes)
  | 2 => do
    if limit < size then none
    let (front, bytes) ← bytes.cut? size
    some (← if front.isEmpty then some f else f.compressed? limit front, bytes)
  | _ => none

/-- Reads blocks up to the last. Every block takes bytes, so their number is fuel enough. -/
def blocks? (limit : Nat) : (fuel : Nat) → Frame → Bytes → Option (Array UInt8 × Bytes)
  | 0, _, _ => none
  | fuel + 1, f, bytes => do
    let (header, bytes) ← bytes.takeNat? 3
    let (f, bytes) ← f.block? limit (header / 2 % 4) (header / 8) bytes
    if header % 2 = 1 then some (f.output, bytes) else blocks? limit fuel f bytes

end Frame

/-- Checks the digest of the content of a frame, if it has one. -/
def checkDigest? (h : FrameHeader) (content : Array UInt8) (bytes : Bytes) : Option Bytes :=
  if h.digested then do
    let (stated, bytes) ← bytes.takeNat? 4
    if (Digest.xxh64 content.toList).toNat % UInt32.size = stated then some bytes else none
  else some bytes

/-- Reads a frame behind its mark: its content and the bytes that follow. -/
def frame? (bytes : Bytes) : Option (Array UInt8 × Bytes) := do
  let (header, bytes) ← FrameHeader.read? bytes
  let limit := min header.window longestBlock
  let (content, bytes) ← Frame.blocks? limit (bytes.length + 1) .initial bytes
  if header.size.any (· ≠ content.size) then none
  some (content, ← checkDigest? header content bytes)

/-- Passes over a frame behind its mark. -/
def skipped? (bytes : Bytes) : Option Bytes := do
  let (size, bytes) ← bytes.takeNat? 4
  let (_, bytes) ← bytes.cut? size
  some bytes

/-- Reads frames up to the end, of which there is at least one. Every frame takes bytes, so their
number is fuel enough. -/
def frames? : (fuel : Nat) → (output : Array UInt8) → Bytes → Option (Array UInt8)
  | 0, _, _ => none
  | fuel + 1, output, bytes => do
    let (mark, bytes) ← bytes.takeNat? 4
    let (content, bytes) ←
      if mark = frameMark then frame? bytes
      else if mark / 16 = skippedMark then (skipped? bytes).map fun bytes => (#[], bytes)
      else none
    let output := output ++ content
    if bytes.isEmpty then some output else frames? fuel output bytes

/-- The bytes that data compressed by zstandard stands for. -/
def decompress? (bytes : Bytes) : Option Bytes :=
  (frames? (bytes.length + 1) #[] bytes).map Array.toList

end CourseQuery.Zstandard
