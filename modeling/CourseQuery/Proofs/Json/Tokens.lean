import CourseQuery.Json.Reader
import CourseQuery.Json.Writer
import CourseQuery.Proofs.Number.Integers

/-!
# Strings and numbers inside a document

The text of a string is read back as the string, character by character: each one stands for
itself or for an escape that is read as it. The text of an integer of 64 bits is read back as the
integer. Reading a number stops at the first character that cannot go on with one, so that what is
read at the end of a text is also read in front of such a character.
-/

set_option autoImplicit false

namespace CourseQuery.Json

open Numeral (Digits sign digitsValue digitsValue_toDigits digits_toDigits)

/-! ## Strings -/

/-- A hexadecimal digit has the value that it stands for. -/
theorem hexValue?_hexDigit : ∀ d < 16, hexValue? (hexDigit d) = some d := by decide

/-- The escape by a code point is read back as the character. -/
theorem escapedCodePoint_unicodeEscape {c : Char} (h : c.toNat < 0xD800) (skim : Bool)
    (rest : List Char) :
    escapedCodePoint skim ((unicodeEscape c).drop 2 ++ rest) = some (c, rest) := by
  have hquad : hexQuad ((unicodeEscape c).drop 2 ++ rest) = some (c.toNat, rest) := by
    simp only [unicodeEscape, List.drop_succ_cons, List.drop_zero, List.cons_append,
      List.nil_append, hexQuad]
    rw [hexValue?_hexDigit _ (by omega), hexValue?_hexDigit _ (by omega),
      hexValue?_hexDigit _ (by omega), hexValue?_hexDigit _ (by omega)]
    simp only [Option.some.injEq, Prod.mk.injEq, and_true]
    omega
  rw [escapedCodePoint, hquad]
  dsimp only
  rw [if_neg (by omega), if_neg (by omega), Char.ofNat_toNat]

/-- Characters spell a character inside a string: they are the character itself, or a backslash and
an escape that is read as the character. -/
def SpellsChar (spelled : List Char) (c : Char) : Prop :=
  (spelled = [c] ∧ c ≠ '"' ∧ c ≠ '\\' ∧ ¬ c.toNat < 0x20) ∨
    ∃ tail, spelled = '\\' :: tail ∧ ∀ skim rest, escaped skim (tail ++ rest) = some (c, rest)

/-- A character is spelled by its number. -/
theorem spellsChar_unicodeEscape {c : Char} (h : c.toNat < 0xD800) :
    SpellsChar (unicodeEscape c) c :=
  Or.inr ⟨_, rfl, fun skim rest => escapedCodePoint_unicodeEscape h skim rest⟩

/-- An escape of two characters spells the one that it is read as. -/
theorem spellsChar_pair {c d : Char} (h : escapedChar? d = some c) : SpellsChar ['\\', d] c := by
  have hd : d ≠ 'u' := by
    rintro rfl
    exact absurd h (by simp [escapedChar?])
  refine Or.inr ⟨[d], rfl, fun skim rest => ?_⟩
  rw [List.singleton_append, escaped.eq_2 skim d rest hd, h, Option.map_some]

/-- A character is spelled by its escape. -/
theorem spellsChar_escapeChar (c : Char) : SpellsChar (escapeChar c) c := by
  by_cases hquote : c = '"'
  · subst hquote
    exact spellsChar_pair (by decide)
  by_cases hbackslash : c = '\\'
  · subst hbackslash
    exact spellsChar_pair (by decide)
  by_cases hline : c = '\n'
  · subst hline
    exact spellsChar_pair (by decide)
  by_cases hreturn : c = '\r'
  · subst hreturn
    exact spellsChar_pair (by decide)
  by_cases htab : c = '\t'
  · subst htab
    exact spellsChar_pair (by decide)
  by_cases hback : c = '\x08'
  · subst hback
    exact spellsChar_pair (by decide)
  by_cases hfeed : c = '\x0c'
  · subst hfeed
    exact spellsChar_pair (by decide)
  simp only [escapeChar, hquote, hbackslash, hline, hreturn, htab, hback, hfeed, if_false]
  by_cases hcontrol : c.toNat < 0x20
  · rw [if_pos hcontrol]
    exact spellsChar_unicodeEscape (by omega)
  · rw [if_neg hcontrol]
    exact Or.inl ⟨rfl, hquote, hbackslash, hcontrol⟩

/-- A quote ends a string. -/
theorem stringBody_quote (skim : Bool) (seen rest : List Char) :
    stringBody skim seen ('"' :: rest) = some (String.ofList seen.reverse, rest) := by
  rw [stringBody, if_pos rfl]

/-- Whatever spells a character inside a string is read as the character. -/
theorem SpellsChar.stringBody {spelled : List Char} {c : Char} (h : SpellsChar spelled c)
    (skim : Bool) (seen rest : List Char) :
    stringBody skim seen (spelled ++ rest) = stringBody skim (c :: seen) rest := by
  rcases h with ⟨rfl, hquote, hbackslash, hcontrol⟩ | ⟨tail, rfl, hread⟩
  · rw [List.singleton_append, Json.stringBody, if_neg hquote, if_neg hbackslash, if_neg hcontrol]
  · rw [List.cons_append, Json.stringBody, if_neg (by decide), if_pos rfl]
    split
    · rename_i d rest' hescaped
      rw [hread] at hescaped
      obtain ⟨rfl, rfl⟩ := Prod.mk.inj (Option.some.inj hescaped)
      rfl
    · rename_i hescaped
      rw [hread] at hescaped
      contradiction

/-- Characters spell a string in quotes: wherever they stand, they begin with a quote, and what
follows it is read as the string. -/
def Quotes (spelled : List Char) (s : String) : Prop :=
  ∀ rest, ∃ body, spelled ++ rest = '"' :: body ∧
    ∀ skim, stringBody skim [] body = some (s, rest)

section Escape

variable {escape : Char → List Char} (hescape : ∀ c, SpellsChar (escape c) c)

include hescape

/-- Characters that are spelled one by one are read one by one. -/
theorem stringBody_flatMap (skim : Bool) (seen s rest : List Char) :
    stringBody skim seen (s.flatMap escape ++ '"' :: rest) =
      some (String.ofList (seen.reverse ++ s), rest) := by
  induction s generalizing seen with
  | nil => simp [stringBody_quote]
  | cons c s ih =>
    rw [List.flatMap_cons, List.append_assoc, (hescape c).stringBody, ih]
    simp

/-- A text is quoted by any spelling of its characters between quotes. -/
theorem quotes_flatMap (s : String) : Quotes ('"' :: s.toList.flatMap escape ++ ['"']) s := by
  intro rest
  refine ⟨s.toList.flatMap escape ++ '"' :: rest, by simp, fun skim => ?_⟩
  rw [stringBody_flatMap hescape, List.reverse_nil, List.nil_append, String.ofList_toList]

end Escape

/-- A text is quoted as it is written. -/
theorem quotes_quoted (s : String) : Quotes (quoted s) s :=
  quotes_flatMap spellsChar_escapeChar s

/-- A quoted text begins with a quote and ends with one. -/
theorem quoted_append (s : String) (rest : List Char) :
    quoted s ++ rest = '"' :: (s.toList.flatMap escapeChar ++ '"' :: rest) := by
  simp [quoted]

/-! ## Numbers -/

/-- What a text begins with cannot go on with a number. -/
def Stops (rest : List Char) : Prop :=
  ∀ c ∈ rest.head?, c.isDigit = false ∧ c ≠ '.' ∧ c ≠ 'e' ∧ c ≠ 'E'

/-- The end of the text ends a number. -/
theorem stops_nil : Stops [] := by simp [Stops]

/-- A character that does not go on with a number ends it. -/
theorem stops_cons {c : Char} {rest : List Char}
    (h : c.isDigit = false ∧ c ≠ '.' ∧ c ≠ 'e' ∧ c ≠ 'E') : Stops (c :: rest) := by
  simpa [Stops] using h

/-- Digits in front of anything else are taken whole. -/
theorem takeDigits_append {digits rest : List Char} (hdigits : ∀ c ∈ digits, c.isDigit = true)
    (hrest : ∀ c ∈ rest.head?, c.isDigit = false) :
    takeDigits (digits ++ rest) = (digits, rest) := by
  rw [takeDigits, List.takeWhile_append_of_pos hdigits, List.dropWhile_append_of_pos hdigits]
  cases rest with
  | nil => simp
  | cons c rest =>
    have hc : c.isDigit = false := hrest c rfl
    simp [hc]

/-- Taking digits does not depend on what stands behind the number. -/
theorem takeDigits_stops {s digits last rest : List Char} (h : takeDigits s = (digits, last))
    (hrest : Stops rest) : takeDigits (s ++ rest) = (digits, last ++ rest) := by
  obtain ⟨rfl, rfl⟩ := Prod.mk.inj h
  have hs : s.takeWhile Char.isDigit ++ s.dropWhile Char.isDigit = s :=
    List.takeWhile_append_dropWhile
  have hdigits : ∀ c ∈ s.takeWhile Char.isDigit, c.isDigit = true := fun c hc =>
    List.mem_takeWhile_imp hc
  have hlast : ∀ c ∈ (s.dropWhile Char.isDigit ++ rest).head?, c.isDigit = false := by
    intro c hc
    cases hdrop : s.dropWhile Char.isDigit with
    | nil =>
      rw [hdrop] at hc
      exact (hrest c hc).1
    | cons d tail =>
      have := List.head?_dropWhile_not Char.isDigit s
      rw [hdrop] at hc this
      obtain rfl : d = c := Option.some.inj hc
      simpa using this
  have := takeDigits_append hdigits hlast
  rwa [← List.append_assoc, hs] at this

/-- Without a point there is no fraction. -/
theorem fractionPart_of_ne {s : List Char} (h : ∀ c ∈ s.head?, c ≠ '.') :
    fractionPart s = some ([], s) := by
  cases s with
  | nil => rfl
  | cons c s =>
    have hc : c ≠ '.' := h c rfl
    unfold fractionPart
    split
    · rename_i heq
      exact absurd (List.cons.inj heq).1 hc
    · rfl

/-- Reading a fraction does not depend on what stands behind the number. -/
theorem fractionPart_stops {s fraction last rest : List Char}
    (h : fractionPart s = some (fraction, last)) (hrest : Stops rest) :
    fractionPart (s ++ rest) = some (fraction, last ++ rest) := by
  by_cases hpoint : ∃ tail, s = '.' :: tail
  · obtain ⟨tail, rfl⟩ := hpoint
    cases hdigits : takeDigits tail with
    | mk digits tail' =>
      have happend := takeDigits_stops hdigits hrest
      simp only [fractionPart, hdigits] at h
      simp only [List.cons_append, fractionPart, happend]
      split at h
      · contradiction
      · rename_i hne
        obtain ⟨rfl, rfl⟩ := Prod.mk.inj (Option.some.inj h)
        rw [if_neg hne]
  · have hs : ∀ c ∈ s.head?, c ≠ '.' := by
      rintro c hc rfl
      obtain ⟨tail, htail⟩ := List.head?_eq_some_iff.1 hc
      exact hpoint ⟨tail, htail⟩
    rw [fractionPart_of_ne hs] at h
    obtain ⟨rfl, rfl⟩ := Prod.mk.inj (Option.some.inj h)
    apply fractionPart_of_ne
    intro c hc
    cases s with
    | nil => exact (hrest c hc).2.1
    | cons d s => exact hs c hc

/-- Taking a minus sign does not depend on what stands behind. -/
theorem takeMinus_append {s body : List Char} {negative : Bool} (hs : s ≠ [])
    (h : Numeral.takeMinus s = (negative, body)) (rest : List Char) :
    Numeral.takeMinus (s ++ rest) = (negative, body ++ rest) := by
  cases s with
  | nil => contradiction
  | cons c s =>
    by_cases hc : c = '-'
    · subst hc
      obtain ⟨rfl, rfl⟩ := Prod.mk.inj h
      rfl
    · simp only [Numeral.takeMinus] at h
      obtain ⟨rfl, rfl⟩ := Prod.mk.inj h
      simp [Numeral.takeMinus, hc]

/-- Taking a sign does not depend on what stands behind. -/
theorem takeSign_append {s body : List Char} {negative : Bool} (hs : s ≠ [])
    (h : Numeral.takeSign s = (negative, body)) (rest : List Char) :
    Numeral.takeSign (s ++ rest) = (negative, body ++ rest) := by
  cases s with
  | nil => contradiction
  | cons c s =>
    by_cases hc : c = '+'
    · subst hc
      obtain ⟨rfl, rfl⟩ := Prod.mk.inj h
      rfl
    · have hminus : ∀ tail, Numeral.takeSign (c :: tail) = Numeral.takeMinus (c :: tail) := by
        simp [Numeral.takeSign, hc]
      rw [hminus] at h
      rw [List.cons_append, hminus]
      exact takeMinus_append hs h rest

/-- Without its mark there is no exponent. -/
theorem exponentPart_of_ne {s : List Char} (h : ∀ c ∈ s.head?, c ≠ 'e' ∧ c ≠ 'E') :
    exponentPart s = some (none, s) := by
  cases s with
  | nil => rfl
  | cons c s =>
    have hc := h c rfl
    simp only [exponentPart, hc.1, hc.2, or_self, if_false]

/-- Reading an exponent does not depend on what stands behind the number. -/
theorem exponentPart_stops {s last rest : List Char} {exponent : Option Int}
    (h : exponentPart s = some (exponent, last)) (hrest : Stops rest) :
    exponentPart (s ++ rest) = some (exponent, last ++ rest) := by
  cases s with
  | nil =>
    obtain ⟨rfl, rfl⟩ := Prod.mk.inj (Option.some.inj h)
    exact exponentPart_of_ne fun c hc => (hrest c hc).2.2
  | cons c s =>
    by_cases hc : c = 'e' ∨ c = 'E'
    · cases hsign : Numeral.takeSign s with
      | mk negative body =>
        cases hdigits : takeDigits body with
        | mk digits last' =>
          simp only [exponentPart, if_pos hc, hsign, hdigits] at h
          split at h
          · contradiction
          · rename_i hne
            obtain ⟨rfl, rfl⟩ := Prod.mk.inj (Option.some.inj h)
            have hs : s ≠ [] := by
              rintro rfl
              obtain ⟨rfl, rfl⟩ := Prod.mk.inj hsign
              obtain ⟨rfl, rfl⟩ := Prod.mk.inj hdigits
              exact hne rfl
            have hbody := takeSign_append hs hsign rest
            have happend := takeDigits_stops hdigits hrest
            simp only [List.cons_append, exponentPart, if_pos hc, hbody, happend, if_neg hne]
    · have hne : c ≠ 'e' ∧ c ≠ 'E' := not_or.1 hc
      rw [exponentPart_of_ne (by simpa using hne)] at h
      obtain ⟨rfl, rfl⟩ := Prod.mk.inj (Option.some.inj h)
      exact exponentPart_of_ne (by simpa using hne)

/-- The value of a number with the given parts: one without fraction and exponent that fits is an
integer, except negative zero. -/
def ofParts (negative : Bool) (whole fraction : List Char) (exponent : Option Int) : Json :=
  let n : Int := digitsValue whole
  let i := if negative then -n else n
  if fraction.isEmpty ∧ exponent = none ∧ fitsWord i ∧ ¬ (negative ∧ n = 0) then integer i
  else real (Numeral.scaledValue ⟨negative, whole, fraction, exponent.getD 0⟩)

/-- A text splits into the parts of a number and what follows it. -/
def Splits (s : List Char) (negative : Bool) (whole fraction : List Char) (exponent : Option Int)
    (rest : List Char) : Prop :=
  ∃ body tail tail', Numeral.takeMinus s = (negative, body) ∧
    takeDigits body = (whole, tail) ∧ fractionPart tail = some (fraction, tail') ∧
      exponentPart tail' = some (exponent, rest)

/-- A text splits into the parts of a number in one way. -/
theorem Splits.unique {s rest rest' : List Char} {negative negative' : Bool}
    {whole whole' fraction fraction' : List Char} {exponent exponent' : Option Int}
    (h : Splits s negative whole fraction exponent rest)
    (h' : Splits s negative' whole' fraction' exponent' rest') :
    negative = negative' ∧ whole = whole' ∧ fraction = fraction' ∧ exponent = exponent' ∧
      rest = rest' := by
  obtain ⟨body, tail, tail₁, hminus, hdigits, hfraction, hexponent⟩ := h
  obtain ⟨body', tail', tail₁', hminus', hdigits', hfraction', hexponent'⟩ := h'
  obtain ⟨rfl, rfl⟩ := Prod.mk.inj (hminus.symm.trans hminus')
  obtain ⟨rfl, rfl⟩ := Prod.mk.inj (hdigits.symm.trans hdigits')
  obtain ⟨rfl, rfl⟩ := Prod.mk.inj (Option.some.inj (hfraction.symm.trans hfraction'))
  obtain ⟨rfl, rfl⟩ := Prod.mk.inj (Option.some.inj (hexponent.symm.trans hexponent'))
  exact ⟨rfl, rfl, rfl, rfl, rfl⟩

/-- The parts of a text that is read as a number, with what follows the number. -/
structure HasParts (skim : Bool) (s : List Char) (negative : Bool) (whole fraction : List Char)
    (exponent : Option Int) (rest : List Char) : Prop where
  parts : Splits s negative whole fraction exponent rest
  whole_ne_nil : whole ≠ []
  no_leading_zero : ¬ (1 < whole.length ∧ whole.head? = some '0')
  inRange : skim = false →
    (Numeral.scaledValue ⟨negative, whole, fraction, exponent.getD 0⟩).isFinite = true

/-- A text is read as a number exactly when it has the parts of one. -/
theorem number_eq_some_iff {skim : Bool} {s rest : List Char} {v : Json} :
    number skim s = some (v, rest) ↔
      ∃ negative whole fraction exponent, HasParts skim s negative whole fraction exponent rest ∧
        v = ofParts negative whole fraction exponent := by
  unfold number
  constructor
  · intro h
    cases hminus : Numeral.takeMinus s with
    | mk negative body =>
      cases hdigits : takeDigits body with
      | mk whole tail =>
        simp only [hminus, hdigits] at h
        split at h
        · contradiction
        · rename_i hform
          rw [not_or, List.isEmpty_iff] at hform
          obtain ⟨⟨fraction, tail'⟩, hfraction, h⟩ := Option.bind_eq_some_iff.1 h
          obtain ⟨⟨exponent, rest'⟩, hexponent, h⟩ := Option.bind_eq_some_iff.1 h
          dsimp only at hexponent h
          split at h
          · contradiction
          · rename_i hrange
            have hvalue : some (ofParts negative whole fraction exponent, rest') = some (v, rest) :=
              (apply_ite (fun v => some (v, rest')) _ _ _).trans h
            obtain ⟨hv, rfl⟩ := Prod.mk.inj (Option.some.inj hvalue)
            refine ⟨negative, whole, fraction, exponent, ⟨?_, hform.1, hform.2, ?_⟩, hv.symm⟩
            · exact ⟨body, tail, tail', hminus, hdigits, hfraction, hexponent⟩
            · intro hskim
              rw [← Bool.not_eq_false]
              exact fun hinfinite => hrange ⟨hinfinite, hskim⟩
  · rintro ⟨negative, whole, fraction, exponent,
      ⟨⟨body, tail, tail', hminus, hdigits, hfraction, hexponent⟩, hwhole, hzero, hrange⟩, rfl⟩
    have hform : ¬ (whole.isEmpty = true ∨ 1 < whole.length ∧ whole.head? = some '0') := by
      rw [not_or, List.isEmpty_iff]
      exact ⟨hwhole, hzero⟩
    simp only [hminus, hdigits, if_neg hform, hfraction, hexponent, bind, Option.bind]
    have hinRange : ¬ ((Numeral.scaledValue ⟨negative, whole, fraction, exponent.getD 0⟩).isFinite =
        false ∧ skim = false) := by
      rintro ⟨hinfinite, hskim⟩
      rw [hrange hskim] at hinfinite
      contradiction
    rw [if_neg hinRange]
    exact (apply_ite (fun v => some (v, rest)) _ _ _).symm

/-- A number that is read at the end of a text is read in front of what cannot go on with it. -/
theorem number_stops {skim : Bool} {s last rest : List Char} {v : Json}
    (h : number skim s = some (v, last)) (hrest : Stops rest) :
    number skim (s ++ rest) = some (v, last ++ rest) := by
  obtain ⟨negative, whole, fraction, exponent, hparts, rfl⟩ := number_eq_some_iff.1 h
  obtain ⟨⟨body, tail, tail', hminus, hdigits, hfraction, hexponent⟩, hwhole, hzero, hrange⟩ :=
    hparts
  have hs : s ≠ [] := by
    rintro rfl
    obtain ⟨-, rfl⟩ := Prod.mk.inj hminus
    exact hwhole (Prod.mk.inj hdigits).1.symm
  refine number_eq_some_iff.2
    ⟨negative, whole, fraction, exponent, ⟨?_, hwhole, hzero, hrange⟩, rfl⟩
  exact ⟨body ++ rest, tail ++ rest, tail' ++ rest, takeMinus_append hs hminus rest,
    takeDigits_stops hdigits hrest, fractionPart_stops hfraction hrest,
    exponentPart_stops hexponent hrest⟩

/-- The parts of the text of an integer are its sign and its digits. -/
theorem parts_integer (i : Int) {rest : List Char} (hrest : Stops rest) :
    Splits ((toString i).toList ++ rest) (decide (i < 0)) (Nat.toDigits 10 i.natAbs) [] none
      rest := by
  have hdigits := digits_toDigits i.natAbs
  refine ⟨Nat.toDigits 10 i.natAbs ++ rest, rest, rest, ?_, ?_, ?_, ?_⟩
  · rw [Numeral.toList_toString_int, List.append_assoc]
    apply Numeral.takeMinus_sign
    intro hhead
    rw [List.head?_append, List.head?_eq_some_head hdigits.1, Option.some_or] at hhead
    have hminus := hdigits.2 _ (List.head_mem hdigits.1)
    rw [Option.some.inj hhead] at hminus
    contradiction
  · exact takeDigits_append hdigits.2 fun c hc => (hrest c hc).1
  · exact fractionPart_of_ne fun c hc => (hrest c hc).2.1
  · exact exponentPart_of_ne fun c hc => (hrest c hc).2.2

/-- The value of the digits of an integer is the integer itself if it fits. -/
theorem ofParts_integer (i : Int) :
    ofParts (decide (i < 0)) (Nat.toDigits 10 i.natAbs) [] none =
      if fitsWord i then integer i
      else real (Numeral.scaledValue ⟨decide (i < 0), Nat.toDigits 10 i.natAbs, [], 0⟩) := by
  have hsign : (if decide (i < 0) = true then -(i.natAbs : Int) else i.natAbs) = i := by
    by_cases hneg : i < 0
    · rw [if_pos (decide_eq_true hneg)]
      omega
    · rw [if_neg (by simpa using hneg)]
      omega
  have hzero : ¬ (decide (i < 0) = true ∧ (i.natAbs : Int) = 0) := by
    rw [decide_eq_true_eq]
    omega
  simp only [ofParts, digitsValue_toDigits, hsign, List.isEmpty_nil, hzero, not_false_eq_true,
    and_true, true_and, Option.getD_none]

/-- The text of an integer of 64 bits is read back as the integer. -/
theorem number_integer {i : Int} (hi : fitsWord i = true) (skim : Bool) {rest : List Char}
    (hrest : Stops rest) : number skim ((toString i).toList ++ rest) = some (integer i, rest) := by
  have hnat : i.natAbs < UInt64.size := by
    simp only [fitsWord, Bool.and_eq_true, decide_eq_true_eq] at hi
    have hmin : Int64.minValue.toInt = -9223372036854775808 := by decide
    have hsize : UInt64.size = 18446744073709551616 := rfl
    rw [hmin, hsize] at hi
    omega
  refine number_eq_some_iff.2 ⟨decide (i < 0), Nat.toDigits 10 i.natAbs, [], none,
    ⟨parts_integer i hrest, (digits_toDigits i.natAbs).1, ?_, ?_⟩, ?_⟩
  · exact Numeral.no_leading_zero i.natAbs
  · intro _
    have hvalue : digitsValue (Nat.toDigits 10 i.natAbs) < UInt64.size := by
      rwa [digitsValue_toDigits]
    rw [Option.getD_none, Numeral.scaledValue_whole _ hvalue, digitsValue_toDigits]
    exact Magnitude.ofDecimal_whole_isFinite hnat
  · rw [ofParts_integer, if_pos hi]

/-- The text of any other integer is read as a number that is no integer, if at all. -/
theorem number_large {i : Int} (hi : fitsWord i = false) {skim : Bool} {rest last : List Char}
    (hrest : Stops rest) {v : Json}
    (h : number skim ((toString i).toList ++ rest) = some (v, last)) : ∃ x, v = real x := by
  obtain ⟨negative, whole, fraction, exponent, hparts, rfl⟩ := number_eq_some_iff.1 h
  obtain ⟨rfl, rfl, rfl, rfl, -⟩ := hparts.parts.unique (parts_integer i hrest)
  rw [ofParts_integer, hi, if_neg Bool.false_ne_true]
  exact ⟨_, rfl⟩

end CourseQuery.Json
