/-!
# Blank characters

Words of a sentence are separated by blanks, and cells of a row are read after blanks at both ends
are dropped. A blank is a character with the Unicode property `White_Space`; the table below is that
property, and `trim` is the only other operation the library needs on it.
-/

set_option autoImplicit false

namespace CourseQuery.Text

/-- The code point ranges of the Unicode property `White_Space`, both ends included. -/
def blankRanges : List (Nat × Nat) :=
  [(0x09, 0x0D), (0x20, 0x20), (0x85, 0x85), (0xA0, 0xA0), (0x1680, 0x1680), (0x2000, 0x200A),
   (0x2028, 0x2029), (0x202F, 0x202F), (0x205F, 0x205F), (0x3000, 0x3000)]

/-- A character is blank when its code point lies in one of the `White_Space` ranges. -/
def isBlank (c : Char) : Bool :=
  blankRanges.any fun (low, high) => low ≤ c.toNat && c.toNat ≤ high

/-- Drops the blanks at both ends. -/
def trimChars (s : List Char) : List Char :=
  ((s.dropWhile isBlank).reverse.dropWhile isBlank).reverse

/-- Drops the blanks at both ends of a text. -/
def trim (s : String) : String :=
  String.ofList (trimChars s.toList)

/-- A text is blank when it holds no character but blanks. -/
def allBlank (s : String) : Bool :=
  s.toList.all isBlank

end CourseQuery.Text
