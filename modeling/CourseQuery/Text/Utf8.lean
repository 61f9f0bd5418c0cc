/-!
# UTF-8

The bytes of a text and the way back. Decoding works one step at a time: `next` takes a first byte
and the bytes after it and yields either a character or nothing, with the bytes that remain. Where
it yields nothing it has passed over the longest run that could still have begun a character, so
that `decodeLossy` shows one replacement character for each such run and `decode?` refuses the
whole.
-/

set_option autoImplicit false

namespace CourseQuery.Text.Utf8

/-- The bytes of one character. -/
def encodeChar (c : Char) : List UInt8 :=
  let n := c.toNat
  if n < 0x80 then
    [UInt8.ofNat n]
  else if n < 0x800 then
    [UInt8.ofNat (0xC0 + n / 64), UInt8.ofNat (0x80 + n % 64)]
  else if n < 0x10000 then
    [UInt8.ofNat (0xE0 + n / 4096), UInt8.ofNat (0x80 + n / 64 % 64), UInt8.ofNat (0x80 + n % 64)]
  else
    [UInt8.ofNat (0xF0 + n / 262144), UInt8.ofNat (0x80 + n / 4096 % 64),
     UInt8.ofNat (0x80 + n / 64 % 64), UInt8.ofNat (0x80 + n % 64)]

/-- The bytes of a text. -/
def encode (s : String) : List UInt8 :=
  s.toList.flatMap encodeChar

/-- The number of bytes a run of characters takes. -/
def size (s : List Char) : Nat :=
  s.foldr (fun c n => c.utf8Size + n) 0

/-- Reads the `more` continuation bytes of a character of which `bits` are known; only the first of
them has its own range `low` to `high`. -/
def follow : (more low high bits : Nat) → List UInt8 → Option Char × List UInt8
  | 0, _, _, bits, rest => (some (Char.ofNat bits), rest)
  | _ + 1, _, _, _, [] => (none, [])
  | more + 1, low, high, bits, b :: rest =>
    if low ≤ b.toNat ∧ b.toNat ≤ high then
      follow more 0x80 0xBF (bits * 64 + (b.toNat - 0x80)) rest
    else
      (none, b :: rest)

/-- Reads one character, of which `b` is the first byte; none when the bytes begin no character. -/
def next (b : UInt8) (rest : List UInt8) : Option Char × List UInt8 :=
  let n := b.toNat
  if n < 0x80 then (some (Char.ofNat n), rest)
  else if n < 0xC2 then (none, rest)
  else if n < 0xE0 then follow 1 0x80 0xBF (n - 0xC0) rest
  else if n < 0xF0 then
    follow 2 (if n = 0xE0 then 0xA0 else 0x80) (if n = 0xED then 0x9F else 0xBF) (n - 0xE0) rest
  else if n < 0xF5 then
    follow 3 (if n = 0xF0 then 0x90 else 0x80) (if n = 0xF4 then 0x8F else 0xBF) (n - 0xF0) rest
  else (none, rest)

/-- Reading continuation bytes gives nothing back. -/
theorem follow_length (more low high bits : Nat) (bytes : List UInt8) :
    (follow more low high bits bytes).2.length ≤ bytes.length := by
  fun_induction follow more low high bits bytes with
  | case1 => exact Nat.le_refl _
  | case2 => exact Nat.le_refl _
  | case3 _ _ _ _ _ _ _ ih => exact Nat.le_succ_of_le ih
  | case4 => exact Nat.le_refl _

/-- Reading a character gives nothing back, so the bytes are read to their end. -/
theorem next_length (b : UInt8) (rest : List UInt8) :
    (next b rest).2.length ≤ rest.length := by
  dsimp only [next]
  split
  · exact Nat.le_refl _
  · split
    · exact Nat.le_refl _
    · split
      · exact follow_length ..
      · split
        · exact follow_length ..
        · split
          · exact follow_length ..
          · exact Nat.le_refl _

/-- The characters of a run of bytes, with nothing for each run that is no character; `seen` are
the characters already read, last first. -/
def steps (seen : List (Option Char)) : List UInt8 → List (Option Char)
  | [] => seen.reverse
  | b :: rest =>
    have := next_length b rest
    steps ((next b rest).1 :: seen) (next b rest).2
termination_by bytes => bytes.length
decreasing_by simp only [List.length_cons]; omega

/-- The character shown for bytes that are no text. -/
def replacement : Char := '\uFFFD'

/-- The text of a run of bytes, with one replacement character for each run that is no text. -/
def decodeLossy (bytes : List UInt8) : String :=
  String.ofList ((steps [] bytes).map fun c => c.getD replacement)

/-- The text of a run of bytes, if all of it is text. -/
def decode? (bytes : List UInt8) : Option String :=
  ((steps [] bytes).mapM id).map String.ofList

end CourseQuery.Text.Utf8
