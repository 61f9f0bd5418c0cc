import CourseQuery.Proofs.Number.Integers

/-!
# Counts and averages as texts

The grammars of the two kinds of number that a row holds. A count is a signed run of digits
(`Whole`). An average is a *general* numeral: a sign, digits with a point anywhere among them, and
perhaps an exponent (`General`), each with the number nearest to what it denotes. Every text of a
grammar is read as its number, and no character of it could be taken for a blank or for the end of
a column.
-/

set_option autoImplicit false

namespace CourseQuery.Numeral

/-! ## The grammars -/

/-- The sign that may stand in front of a count, an average or an exponent. -/
inductive Signs : List Char → Bool → Prop
  | none : Signs [] false
  | plus : Signs ['+'] false
  | minus : Signs ['-'] true

/-- The text of an integer: a sign and digits. -/
inductive Whole : List Char → Int → Prop
  | mk {signs digits : List Char} {negative : Bool} : Signs signs negative → Digits digits →
      Whole (signs ++ digits)
        (if negative then -(digitsValue digits : Int) else digitsValue digits)

/-- Digits before and behind a point, of which there is at least one. -/
inductive Mantissa : List Char → List Char → List Char → Prop
  | whole {digits : List Char} : Digits digits → Mantissa digits digits []
  | point {whole fraction : List Char} : Digits (whole ++ fraction) →
      Mantissa (whole ++ '.' :: fraction) whole fraction

/-- The exponent that digits state. From ten times the limit on they do not count in full, which
only a numeral with as many digits would need. -/
def statedExponent (digits : List Char) : Nat :=
  if digitsValue digits < 10 * exponentLimit then digitsValue digits else exponentValue digits

/-- The end of a general numeral, with its exponent. -/
inductive Exponent : List Char → Int → Prop
  | none : Exponent [] 0
  | some {mark : Char} {signs digits : List Char} {negative : Bool} : mark = 'e' ∨ mark = 'E' →
      Signs signs negative → Digits digits →
      Exponent (mark :: (signs ++ digits))
        (if negative then -(statedExponent digits : Int) else statedExponent digits)

/-- A general numeral and the number nearest to what it denotes. -/
inductive General : List Char → Binary64 → Prop
  | mk {signs mantissa whole fraction tail : List Char} {negative : Bool} {exponent : Int} :
      Signs signs negative → Mantissa mantissa whole fraction → Exponent tail exponent →
      General (signs ++ (mantissa ++ tail)) (value ⟨negative, whole, fraction, exponent⟩)

variable {signs digits whole fraction mantissa tail w : List Char} {negative : Bool}

/-! ## Their characters -/

/-- Signs are a plus or a minus. -/
theorem Signs.mem (h : Signs signs negative) : ∀ c ∈ signs, c = '+' ∨ c = '-' := by
  cases h <;> simp

/-- A mantissa is made of digits and a point. -/
theorem Mantissa.mem (h : Mantissa mantissa whole fraction) :
    ∀ c ∈ mantissa, c = '.' ∨ c.isDigit = true := by
  cases h with
  | whole hdigits => exact fun c hc => .inr (hdigits.2 c hc)
  | point hdigits =>
    intro c hc
    rw [List.mem_append, List.mem_cons] at hc
    rcases hc with hc | rfl | hc
    · exact .inr (hdigits.2 c (List.mem_append_left _ hc))
    · exact .inl rfl
    · exact .inr (hdigits.2 c (List.mem_append_right _ hc))

/-- A mantissa is not empty. -/
theorem Mantissa.ne_nil (h : Mantissa mantissa whole fraction) : mantissa ≠ [] := by
  cases h with
  | whole hdigits => exact hdigits.1
  | point => simp

/-- A character that can stand in a count or an average. -/
def isNumeric (c : Char) : Bool :=
  c.isDigit || c == '+' || c == '-' || c == '.' || c == 'e' || c == 'E'

/-- A digit is numeric. -/
theorem isNumeric_of_isDigit {c : Char} (h : c.isDigit = true) : isNumeric c = true := by
  simp [isNumeric, h]

/-- Signs are numeric. -/
theorem Signs.isNumeric (h : Signs signs negative) : ∀ c ∈ signs, isNumeric c = true := by
  intro c hc
  rcases h.mem c hc with rfl | rfl <;> rfl

/-- The characters of a whole number are numeric. -/
theorem Whole.isNumeric {i : Int} (h : Whole w i) : ∀ c ∈ w, isNumeric c = true := by
  obtain ⟨hsigns, hdigits⟩ := h
  intro c hc
  rcases List.mem_append.1 hc with hc | hc
  · exact hsigns.isNumeric c hc
  · exact isNumeric_of_isDigit (hdigits.2 c hc)

/-- The characters of an exponent are numeric. -/
theorem Exponent.isNumeric {exponent : Int} (h : Exponent tail exponent) :
    ∀ c ∈ tail, isNumeric c = true := by
  cases h with
  | none => simp
  | some hmark hsigns hdigits =>
    intro c hc
    rw [List.mem_cons, List.mem_append] at hc
    rcases hc with rfl | hc | hc
    · rcases hmark with rfl | rfl <;> rfl
    · exact hsigns.isNumeric c hc
    · exact isNumeric_of_isDigit (hdigits.2 c hc)

/-- The characters of a numeral are numeric. -/
theorem General.isNumeric {x : Binary64} (h : General w x) : ∀ c ∈ w, isNumeric c = true := by
  obtain ⟨hsigns, hmantissa, hexponent⟩ := h
  intro c hc
  simp only [List.mem_append] at hc
  rcases hc with hc | hc | hc
  · exact hsigns.isNumeric c hc
  · rcases hmantissa.mem c hc with rfl | hdigit
    · rfl
    · exact isNumeric_of_isDigit hdigit
  · exact hexponent.isNumeric c hc

/-! ## Reading them -/

/-- A sign is taken from what does not begin with one. -/
theorem takeSign_append (h : Signs signs negative) {body : List Char}
    (hbody : ∀ c ∈ body.head?, c ≠ '+' ∧ c ≠ '-') :
    takeSign (signs ++ body) = (negative, body) := by
  cases h with
  | none =>
    cases body with
    | nil => rfl
    | cons c body =>
      obtain ⟨hplus, hminus⟩ := hbody c rfl
      simp [takeSign, takeMinus, hplus, hminus]
  | plus => rfl
  | minus => rfl

/-- A sign is taken from in front of digits. -/
theorem takeSign_digits (hsigns : Signs signs negative) (hdigits : Digits digits) :
    takeSign (signs ++ digits) = (negative, digits) := by
  refine takeSign_append hsigns fun c hc => ?_
  have hdigit := hdigits.2 c (List.mem_of_mem_head? hc)
  exact ⟨ne_of_isDigit (by decide) hdigit, ne_of_isDigit (by decide) hdigit⟩

/-- The text of an integer that fits in 64 bits is read as the integer. -/
theorem int64?_of_whole {i : Int} (h : Whole w i) (hmin : Int64.minValue.toInt ≤ i)
    (hmax : i ≤ Int64.maxValue.toInt) : int64? (String.ofList w) = some i := by
  obtain ⟨hsigns, hdigits⟩ := h
  rw [int64?, String.toList_ofList, takeSign_digits hsigns hdigits]
  exact if_pos ⟨allDigits_iff.2 hdigits, hmin, hmax⟩

/-- Digits are taken up one by one as long as the limit is not reached before the last. -/
theorem exponentValue_eq_stated (digits : List Char) :
    exponentValue digits = statedExponent digits := by
  have hfold : ∀ (digits : List Char) (n : Nat), Nat.ofDigitChars 10 digits n < 10 * exponentLimit →
      digits.foldl (fun n c => if n < exponentLimit then 10 * n + digitsValue [c] else n) n =
        Nat.ofDigitChars 10 digits n := by
    intro digits
    induction digits with
    | nil => exact fun n _ => rfl
    | cons c digits ih =>
      intro n hn
      have hdigit : digitsValue [c] = c.toNat - '0'.toNat := Nat.zero_add _
      rw [Nat.ofDigitChars_cons] at hn ⊢
      have hlimit : n < exponentLimit := by
        have := le_ofDigitChars (10 * n + (c.toNat - '0'.toNat)) digits
        omega
      rw [List.foldl_cons, if_pos hlimit, hdigit]
      exact ih _ hn
  unfold statedExponent
  split
  · rename_i hsmall
    rw [digitsValue_eq] at hsmall ⊢
    exact hfold digits 0 hsmall
  · rfl

/-- A sign and digits are read as the exponent that they state. -/
theorem exponent?_of_digits (hsigns : Signs signs negative) (hdigits : Digits digits) :
    exponent? (signs ++ digits) =
      some (if negative then -(statedExponent digits : Int) else statedExponent digits) := by
  rw [exponent?, takeSign_digits hsigns hdigits, ← exponentValue_eq_stated]
  exact if_pos (allDigits_iff.2 hdigits)

/-- The digits before a point and behind it are cut apart there. -/
theorem cutAt_mantissa (h : Mantissa mantissa whole fraction) :
    ∃ point, cutAt (· == '.') mantissa = (whole, point) ∧ point.drop 1 = fraction ∧
      allDigits (whole ++ fraction) = true := by
  have hpoint : ∀ {digits : List Char}, (∀ c ∈ digits, c.isDigit = true) →
      ∀ c ∈ digits, (c == '.') = false := fun hdigits c hc => by
    simpa using ne_of_isDigit (d := '.') (by decide) (hdigits c hc)
  cases h with
  | whole hdigits =>
    refine ⟨[], ?_, rfl, by rw [List.append_nil, allDigits_iff.2 hdigits]⟩
    have hcut : cutAt (· == '.') (whole ++ []) = (whole, []) :=
      cutAt_append (hpoint hdigits.2) (by simp)
    rwa [List.append_nil] at hcut
  | point hdigits =>
    refine ⟨'.' :: fraction, ?_, rfl, allDigits_iff.2 hdigits⟩
    exact cutAt_append (hpoint fun c hc => hdigits.2 c (List.mem_append_left _ hc)) (by simp)

/-- The mantissa of a numeral ends where its exponent begins. -/
theorem cutAt_exponent {exponent : Int} (hmantissa : Mantissa mantissa whole fraction)
    (hexponent : Exponent tail exponent) :
    cutAt (fun c => c == 'e' || c == 'E') (mantissa ++ tail) = (mantissa, tail) := by
  refine cutAt_append (fun c hc => ?_) fun c hc => ?_
  · rcases hmantissa.mem c hc with rfl | hdigit
    · rfl
    · have he := ne_of_isDigit (d := 'e') (by decide) hdigit
      have hE := ne_of_isDigit (d := 'E') (by decide) hdigit
      simp [he, hE]
  · cases hexponent with
    | none => simp at hc
    | some hmark =>
      obtain rfl := Option.some.inj hc
      simpa using hmark

/-- A mantissa and an exponent are read as the parts of a number. -/
theorem general?_of_mantissa {exponent : Int} (negative : Bool)
    (hmantissa : Mantissa mantissa whole fraction) (hexponent : Exponent tail exponent) :
    general? negative (mantissa ++ tail) = some ⟨negative, whole, fraction, exponent⟩ := by
  obtain ⟨point, hcut, hpoint, hdigits⟩ := cutAt_mantissa hmantissa
  simp only [general?, cutAt_exponent hmantissa hexponent, hcut, hpoint, hdigits, if_true]
  cases hexponent with
  | none => rfl
  | some _ hsigns hstated =>
    dsimp only
    rw [exponent?_of_digits hsigns hstated, Option.map_some]

/-- A character that can begin a mantissa has no other form in lower case. -/
theorem toLower_of_mantissa {c : Char} (h : c = '.' ∨ c.isDigit = true) : c.toLower = c := by
  rcases h with rfl | h
  · rfl
  · have hle : c.val ≤ '9'.val := by
      simp only [Char.isDigit, Bool.and_eq_true, decide_eq_true_eq] at h
      exact h.2
    exact dif_neg fun hupper => absurd (UInt32.le_trans hupper.1 hle) (by decide)

/-- A general numeral is read as the number nearest to what it denotes. -/
theorem ofGeneral?_of_general {x : Binary64} (h : General w x) :
    Binary64.ofGeneral? (String.ofList w) = some x := by
  obtain ⟨hsigns, hmantissa, hexponent⟩ := h
  rename_i signs mantissa whole fraction tail negative exponent
  have hread := general?_of_mantissa negative hmantissa hexponent
  obtain ⟨c, rest, rfl⟩ := List.exists_cons_of_ne_nil hmantissa.ne_nil
  have hfirst : c = '.' ∨ c.isDigit = true := hmantissa.mem c List.mem_cons_self
  have hne : ∀ d : Char, d ≠ '.' → d.isDigit = false → c ≠ d := by
    rintro d hpoint hdigit rfl
    rcases hfirst with rfl | hc
    · exact hpoint rfl
    · exact ne_of_isDigit hdigit hc rfl
  have hsign : takeSign (signs ++ (c :: rest ++ tail)) = (negative, c :: rest ++ tail) := by
    refine takeSign_append hsigns fun d hd => ?_
    obtain rfl := Option.some.inj hd
    exact ⟨hne _ (by decide) (by decide), hne _ (by decide) (by decide)⟩
  -- the words that are read otherwise begin with a letter
  have hword : ∀ (d : Char) (word : List Char), d ≠ '.' → d.isDigit = false →
      String.ofList ((c :: rest ++ tail).map Char.toLower) ≠ String.ofList (d :: word) := by
    intro d word hpoint hdigit heq
    have hchars := String.ofList_injective heq
    rw [List.cons_append, List.map_cons, toLower_of_mantissa hfirst, List.cons.injEq] at hchars
    exact hne d hpoint hdigit hchars.1
  have hinf := hword 'i' ['n', 'f'] (by decide) (by decide)
  have hinfinity := hword 'i' ['n', 'f', 'i', 'n', 'i', 't', 'y'] (by decide) (by decide)
  have hnan := hword 'n' ['a', 'n'] (by decide) (by decide)
  rw [Binary64.ofGeneral?, String.toList_ofList, hsign]
  dsimp only
  rw [if_neg (not_or.2 ⟨hinf, hinfinity⟩), if_neg hnan, hread, Option.map_some]

end CourseQuery.Numeral
