import CourseQuery.Archive.Entry
import CourseQuery.Archive.Tar.Extension
import CourseQuery.Archive.Tar.Sparse

/-!
# Tar archives

The members of a tar archive follow each other: a header and then its data, filled up to whole
blocks. A block of zeros or the exact end of the bytes ends the archive. The path of a member is the
one of a long name or an extended header that stands before it, or else the one in its header; its
size is that of the extended header if there is one. Only plain files count.

`write` writes an archive with headers of the form that keeps the directory apart.
-/

set_option autoImplicit false

namespace CourseQuery.Tar

open Archive (Entry Fault)

/-- What stands before a member and describes it. -/
structure Pending where
  longName : Option Bytes
  longLink : Option Bytes
  extension : Option Bytes
deriving DecidableEq, Repr

namespace Pending

/-- Nothing stands before a member. -/
def none : Pending := ⟨.none, .none, .none⟩

/-- Nothing stands before a member. -/
def isNone (p : Pending) : Bool :=
  p.longName.isNone && p.longLink.isNone && p.extension.isNone

/-- The path of a member. -/
def path (p : Pending) (h : Header) : Bytes :=
  match p.longName with
  | some name => if name.getLast? = some 0 then name.dropLast else name
  | .none => (p.extension.bind statedPath?).getD h.path

/-- The size of a member's data: the one of the extended header, which is not about members that
describe others, or else what the header states. -/
def size (p : Pending) (h : Header) (stated : Nat) : Nat :=
  if h.describesOthers then stated else (p.extension.bind statedSize?).getD stated

end Pending

/-- Takes a header and its data from the front; none at the end of the archive. -/
def member? (pending : Pending) (bytes : Bytes) : Except String (Option (Header × Bytes × Bytes)) :=
  let header : Header := ⟨bytes.take blockSize⟩
  let body := bytes.drop blockSize
  if bytes.isEmpty then .ok none
  else if bytes.length < blockSize then .error "the last block is not whole"
  else if header.block.all (· = 0) then .ok none
  else if header.checks = false then .error "a header does not have its checksum"
  else
    match header.size? with
    | none => .error "a header states no size"
    | some stated =>
      let size := pending.size header stated
      match header.mapBlocks? size body with
      | none => .error "the map of a sparse file is wrong"
      | some count =>
        let data := body.drop (count * blockSize)
        if data.length < roundUp size then .error "the data of a member is cut short"
        else .ok (some (header, data.take size, data.drop (roundUp size)))

/-- What follows a member is shorter than what begins with it. -/
theorem member?_length {pending : Pending} {bytes data rest : Bytes} {header : Header}
    (h : member? pending bytes = .ok (some (header, data, rest))) : rest.length < bytes.length := by
  have hblock : 0 < blockSize := by decide
  unfold member? at h
  generalize blockSize = size at h hblock
  dsimp only at h
  split at h
  · simp at h
  · rename_i hempty
    have hpos : 0 < bytes.length := by
      cases bytes with
      | nil => simp at hempty
      | cons => simp
    repeat' split at h
    all_goals simp only [reduceCtorEq, Except.ok.injEq, Option.some.injEq, Prod.mk.injEq] at h
    rw [← h.2.2, List.length_drop, List.length_drop, List.length_drop]
    omega

/-- The plain files of an archive, in order, with what stands before the next member. -/
def readFrom (pending : Pending) (bytes : Bytes) : Except Fault (List Entry) :=
  match h : member? pending bytes with
  | .error reason => .error (.entry reason)
  | .ok none =>
    if pending.isNone then .ok [] else .error (.entry "a long name has no member")
  | .ok (some (header, data, rest)) =>
    have := member?_length h
    let known := header.format ≠ .old
    if known ∧ header.type = 'L' then
      if pending.longName.isSome then .error (.entry "a member has two long names")
      else readFrom { pending with longName := some data } rest
    else if known ∧ header.type = 'K' then
      if pending.longLink.isSome then .error (.entry "a member has two long links")
      else readFrom { pending with longLink := some data } rest
    else if known ∧ header.type = 'x' then
      if pending.extension.isSome then .error (.entry "a member has two extended headers")
      else readFrom { pending with extension := some data } rest
    else do
      let entries ← readFrom Pending.none rest
      .ok (if header.isFile then ⟨Text.Utf8.decodeLossy (pending.path header), data⟩ :: entries
        else entries)
termination_by bytes.length

/-- The plain files of a tar archive, in order. -/
def read (archive : Bytes) : Except Fault (List Entry) :=
  readFrom Pending.none archive

section Writing

/-- A run of bytes filled up with zeros. -/
def fill (size : Nat) (bytes : Bytes) : Bytes :=
  bytes ++ List.replicate (size - bytes.length) 0

/-- The digits of a number in base eight, at least `count` of them. -/
def octalDigits (count n : Nat) : Bytes :=
  let digits := (Nat.toDigits 8 n).map fun c => UInt8.ofNat c.toNat
  List.replicate (count - digits.length) (UInt8.ofNat '0'.toNat) ++ digits

/-- The header of a plain file, given the eight bytes of its checksum. -/
def headerWith (checksum : Bytes) (e : Entry) : Bytes :=
  fill 100 (Bytes.ofAscii e.path) ++ octalDigits 7 0o644 ++ [0] ++ octalDigits 7 0 ++ [0] ++
    octalDigits 7 0 ++ [0] ++ octalDigits 11 e.content.length ++ [0] ++ octalDigits 11 0 ++ [0] ++
    checksum ++ Bytes.ofAscii "0" ++ List.replicate 100 0 ++ Bytes.ofAscii "ustar" ++ [0] ++
    Bytes.ofAscii "00" ++ List.replicate 247 0

/-- The header of a plain file. -/
def headerOf (e : Entry) : Bytes :=
  let sum := (Header.mk (headerWith (List.replicate 8 0) e)).sum
  headerWith (octalDigits 6 sum ++ [0] ++ Bytes.ofAscii " ") e

/-- A tar archive with the given files, their paths ASCII and at most a hundred bytes long. -/
def write (entries : List Entry) : Bytes :=
  (entries.flatMap fun e => headerOf e ++ fill (roundUp e.content.length) e.content) ++
    List.replicate (2 * blockSize) 0

end Writing

end CourseQuery.Tar
