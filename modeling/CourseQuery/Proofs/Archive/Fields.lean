import CourseQuery.Archive.CodePage437
import CourseQuery.Archive.Entry
import CourseQuery.Proofs.Text.Utf8

/-!
# Fields read back

The readers of archives take field after field from the front of a run of bytes. Each field that
was written there is taken as it is and leaves what follows it. A name of ASCII characters is the
same text in every encoding that an archive may use for it.
-/

set_option autoImplicit false

namespace CourseQuery

namespace Bytes

variable {front rest : Bytes} {count n : Nat}

/-- Bytes in front of others are cut off by their number. -/
theorem cut?_append (h : front.length = count) (rest : Bytes) :
    cut? count (front ++ rest) = some (front, rest) := by
  have hle : count ≤ (front ++ rest).length := by
    rw [List.length_append]
    omega
  rw [cut?, if_pos hle, List.splitAt_eq, List.take_left' h, List.drop_left' h]

/-- A number that fits in its field is taken from the front of what follows it. -/
theorem takeNat?_append (h : n < Nat.pow 256 count) (rest : Bytes) :
    takeNat? count (ofNat count n ++ rest) = some (n, rest) := by
  have hread : littleEndian (ofNat count n) = n := by
    rw [littleEndian_ofNat]
    exact Nat.mod_eq_of_lt h
  rw [takeNat?, cut?_append (length_ofNat count n), Option.map_some]
  dsimp only
  rw [hread]

/-- A number that fits in 16 bits is taken from two bytes. -/
theorem takeNat?_two (h : n < 0x10000) (rest : Bytes) :
    takeNat? 2 (ofNat 2 n ++ rest) = some (n, rest) :=
  takeNat?_append (show n < Nat.pow 256 2 from h) rest

/-- A number that fits in 32 bits is taken from four bytes. -/
theorem takeNat?_four (h : n < UInt32.size) (rest : Bytes) :
    takeNat? 4 (ofNat 4 n ++ rest) = some (n, rest) :=
  takeNat?_append (show n < Nat.pow 256 4 from h) rest

/-- A number that fits in 64 bits is taken from eight bytes. -/
theorem takeNat?_eight (h : n < UInt64.size) (rest : Bytes) :
    takeNat? 8 (ofNat 8 n ++ rest) = some (n, rest) :=
  takeNat?_append (show n < Nat.pow 256 8 from h) rest

/-- One byte stands for each character of a name. -/
theorem length_ofAscii (s : String) : (ofAscii s).length = s.toList.length := by
  rw [ofAscii, List.length_map]

/-- The bytes of characters below U+0080 are those of their text. -/
theorem encode_ofList {s : List Char} (h : ∀ c ∈ s, c.toNat < 0x80) :
    Text.Utf8.encode (String.ofList s) = s.map fun c => UInt8.ofNat c.toNat := by
  rw [Text.Utf8.encode, String.toList_ofList]
  induction s with
  | nil => rfl
  | cons c s ih =>
    rw [List.forall_mem_cons] at h
    have hc : Text.Utf8.encodeChar c = [UInt8.ofNat c.toNat] := by
      rw [Text.Utf8.encodeChar, if_pos h.1]
    rw [List.flatMap_cons, hc, ih h.2, List.map_cons, List.singleton_append]

end Bytes

namespace Archive

/-- A path that a stored archive of either form can hold as it is, and that is not the one of a
directory. -/
structure PlainPath (path : String) : Prop where
  ne_nil : path.toList ≠ []
  printable : ∀ c ∈ path.toList, ' ' ≤ c ∧ c ≤ '~'
  short : path.toList.length ≤ 99
  not_slash : path.toList.getLast? ≠ some '/'
  not_backslash : path.toList.getLast? ≠ some '\\'

instance (path : String) : Decidable (PlainPath path) :=
  decidable_of_iff (path.toList ≠ [] ∧ path.toList.all (fun c => ' ' ≤ c && c ≤ '~') = true ∧
      path.toList.length ≤ 99 ∧ path.toList.getLast? ≠ some '/' ∧ path.toList.getLast? ≠ some '\\')
    ⟨fun ⟨hne, hall, hshort, hslash, hbackslash⟩ =>
        ⟨hne, fun c hc => by simpa using List.all_eq_true.1 hall c hc, hshort, hslash, hbackslash⟩,
      fun h => ⟨h.ne_nil, List.all_eq_true.2 fun c hc => by simpa using h.printable c hc, h.short,
        h.not_slash, h.not_backslash⟩⟩

namespace PlainPath

variable {path : String} (h : PlainPath path)

include h

/-- The characters of a plain path are printable. -/
theorem toNat_bounds {c : Char} (hc : c ∈ path.toList) : 32 ≤ c.toNat ∧ c.toNat ≤ 126 :=
  h.printable c hc

/-- The bytes of the path are those of printable characters. -/
theorem mem_ofAscii {b : UInt8} (hb : b ∈ Bytes.ofAscii path) : 32 ≤ b.toNat ∧ b.toNat ≤ 126 := by
  obtain ⟨c, hc, rfl⟩ := List.mem_map.1 hb
  have hbounds := h.toNat_bounds hc
  rwa [Text.Utf8.toNat_ofNat (by omega)]

/-- The bytes of a plain path are read as UTF-8 without a loss. -/
theorem decodeLossy_ofAscii : Text.Utf8.decodeLossy (Bytes.ofAscii path) = path := by
  have hbytes : Text.Utf8.encode path = Bytes.ofAscii path := by
    have hascii : ∀ c ∈ path.toList, c.toNat < 0x80 := fun c hc => by
      have := h.toNat_bounds hc
      omega
    rw [Bytes.ofAscii, ← Bytes.encode_ofList hascii, String.ofList_toList]
  rw [← hbytes, Text.Utf8.decodeLossy_encode]

/-- The bytes of a plain path mean the same in the older code page. -/
theorem codePage437_ofAscii : CodePage437.decode (Bytes.ofAscii path) = path := by
  have hchars : (Bytes.ofAscii path).map CodePage437.decodeByte = path.toList := by
    rw [Bytes.ofAscii, List.map_map]
    refine (List.map_congr_left fun c hc => ?_).trans (List.map_id _)
    have hbounds := h.toNat_bounds hc
    rw [Function.comp, CodePage437.decodeByte, Text.Utf8.toNat_ofNat (by omega),
      if_pos (by omega), Char.ofNat_toNat, id]
  rw [CodePage437.decode, hchars, String.ofList_toList]

end PlainPath

end Archive

end CourseQuery
