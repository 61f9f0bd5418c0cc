import CourseQuery.Bytes

/-!
# XXH64

The digest of the content of a zstandard frame. Four lanes take words of eight bytes in turn and are
merged; what is left over is taken in smaller pieces; at last the bits are mixed.
-/

set_option autoImplicit false

namespace CourseQuery.Digest

/-- The first multiplier. -/
def prime1 : UInt64 := 0x9E3779B185EBCA87

/-- The second multiplier. -/
def prime2 : UInt64 := 0xC2B2AE3D27D4EB4F

/-- The third multiplier. -/
def prime3 : UInt64 := 0x165667B19E3779F9

/-- The fourth multiplier. -/
def prime4 : UInt64 := 0x85EBCA77C2B2AE63

/-- The fifth multiplier. -/
def prime5 : UInt64 := 0x27D4EB2F165667C5

/-- Moves the bits of a word up, those at the top coming in below. -/
def rotate (n : UInt64) (word : UInt64) : UInt64 :=
  (word <<< n) ||| (word >>> (64 - n))

/-- Takes a word into a lane. -/
def round (lane word : UInt64) : UInt64 :=
  rotate 31 (lane + word * prime2) * prime1

/-- Merges a lane into the digest. -/
def merge (digest lane : UInt64) : UInt64 :=
  (digest ^^^ round 0 lane) * prime1 + prime4

/-- The number of some bytes, the least first. -/
def word (bytes : Bytes) : UInt64 :=
  UInt64.ofNat (Bytes.littleEndian bytes)

/-- The four lanes. -/
structure Lanes where
  first : UInt64
  second : UInt64
  third : UInt64
  fourth : UInt64

namespace Lanes

/-- The lanes before the first word. -/
def initial : Lanes := ⟨prime1 + prime2, prime2, 0, 0 - prime1⟩

/-- Takes a word into each lane. -/
def feed (l : Lanes) (stripe : Bytes) : Lanes :=
  ⟨round l.first (word (stripe.take 8)), round l.second (word ((stripe.drop 8).take 8)),
    round l.third (word ((stripe.drop 16).take 8)), round l.fourth (word (stripe.drop 24))⟩

/-- The lanes merged. -/
def merged (l : Lanes) : UInt64 :=
  let sum := rotate 1 l.first + rotate 7 l.second + rotate 12 l.third + rotate 18 l.fourth
  merge (merge (merge (merge sum l.first) l.second) l.third) l.fourth

end Lanes

/-- Takes in whole stripes of four words, as many as there are: the lanes and the bytes left. -/
def stripes : (fuel : Nat) → Lanes → Bytes → Lanes × Bytes
  | 0, lanes, bytes => (lanes, bytes)
  | fuel + 1, lanes, bytes =>
    match bytes.cut? 32 with
    | none => (lanes, bytes)
    | some (stripe, rest) => stripes fuel (lanes.feed stripe) rest

/-- Takes in single bytes. -/
def feedBytes (digest : UInt64) (bytes : Bytes) : UInt64 :=
  bytes.foldl (fun digest b => rotate 11 (digest ^^^ b.toUInt64 * prime5) * prime1) digest

/-- Takes in what is less than a word. -/
def feedHalf (digest : UInt64) (bytes : Bytes) : UInt64 :=
  match bytes.cut? 4 with
  | none => feedBytes digest bytes
  | some (half, rest) =>
    feedBytes (rotate 23 (digest ^^^ word half * prime1) * prime2 + prime3) rest

/-- Takes in what is less than a stripe. -/
def feedWords : (fuel : Nat) → UInt64 → Bytes → UInt64
  | 0, digest, bytes => feedHalf digest bytes
  | fuel + 1, digest, bytes =>
    match bytes.cut? 8 with
    | none => feedHalf digest bytes
    | some (front, rest) =>
      feedWords fuel (rotate 27 (digest ^^^ round 0 (word front)) * prime1 + prime4) rest

/-- Mixes the bits of a digest. -/
def mix (digest : UInt64) : UInt64 :=
  let digest := (digest ^^^ (digest >>> 33)) * prime2
  let digest := (digest ^^^ (digest >>> 29)) * prime3
  digest ^^^ (digest >>> 32)

/-- The digest of a run of bytes. -/
def xxh64 (bytes : Bytes) : UInt64 :=
  let (lanes, rest) := stripes bytes.length Lanes.initial bytes
  let digest := if bytes.length < 32 then prime5 else lanes.merged
  mix (feedWords 4 (digest + UInt64.ofNat bytes.length) rest)

end CourseQuery.Digest
