import CourseQuery.Proofs.Json.Tokens
import CourseQuery.Proofs.Number.Nearest

/-!
# Numbers as they are reread

The text of a finite number is a number of the grammar in one of two layouts, with a fraction or
with an exponent, so it is never read as an integer. It denotes a decimal to which the number is the
nearest, so no two numbers have one text. What is read is finite again, but it need not be the
number that was written, since reading rounds in steps: `Binary64.reread` is the number that comes
back.
-/

set_option autoImplicit false

namespace CourseQuery

open Numeral (Digits sign digitsValue scaledValue)

namespace Json

/-! ## Parts of a number -/

/-- The characters of an exponent. -/
def exponentChars : Option Int → List Char
  | none => []
  | some i => 'e' :: (toString i).toList

/-- The characters of a number with the given parts. -/
def partsChars (negative : Bool) (whole fraction : List Char) (exponent : Option Int) :
    List Char :=
  sign negative ++ (whole ++ ((if fraction.isEmpty then [] else '.' :: fraction) ++
    exponentChars exponent))

/-- The parts of a number that is not an integer and lies in range. -/
structure RealParts (negative : Bool) (whole fraction : List Char) (exponent : Option Int) :
    Prop where
  digits : Digits whole
  no_leading_zero : ¬ (1 < whole.length ∧ whole.head? = some '0')
  fractionDigits : ∀ c ∈ fraction, c.isDigit = true
  marked : fraction ≠ [] ∨ exponent ≠ none
  inRange : (scaledValue ⟨negative, whole, fraction, exponent.getD 0⟩).isFinite = true

/-- An exponent that is written is read back, and nothing is left behind it. -/
theorem exponentPart_exponentChars (exponent : Option Int) :
    exponentPart (exponentChars exponent) = some (exponent, []) := by
  cases exponent with
  | none => rfl
  | some i =>
    have hdigits := Numeral.digits_toDigits i.natAbs
    have hhead : ∀ c ∈ (Nat.toDigits 10 i.natAbs).head?, c.isDigit = true := fun c hc =>
      hdigits.2 c (List.mem_of_head? hc)
    have hsign : Numeral.takeSign (toString i).toList =
        (decide (i < 0), Nat.toDigits 10 i.natAbs) := by
      rw [Numeral.toList_toString_int]
      have hne : (Nat.toDigits 10 i.natAbs).head? ≠ some '-' :=
        fun h => absurd (hhead _ h) (by decide)
      rw [← Numeral.takeMinus_sign hne]
      unfold Numeral.takeSign
      split
      · rename_i rest hplus
        exfalso
        cases hneg : decide (i < 0) with
        | true =>
          rw [hneg] at hplus
          exact absurd (List.cons.inj hplus).1 (by decide)
        | false =>
          rw [hneg] at hplus
          have hfirst : (Nat.toDigits 10 i.natAbs).head? = some '+' := by
            rw [show Nat.toDigits 10 i.natAbs = '+' :: rest from hplus]
            rfl
          exact absurd (hhead _ hfirst) (by decide)
      · rfl
    have htake : takeDigits (Nat.toDigits 10 i.natAbs) = (Nat.toDigits 10 i.natAbs, []) := by
      have hnil : ∀ c ∈ ([] : List Char).head?, c.isDigit = false := nofun
      have := takeDigits_append hdigits.2 hnil
      rwa [List.append_nil] at this
    have hvalue : (if decide (i < 0) = true then -(i.natAbs : Int) else i.natAbs) = i := by
      by_cases hneg : i < 0
      · rw [if_pos (decide_eq_true hneg)]
        omega
      · rw [if_neg (by simpa using hneg)]
        omega
    simp only [exponentChars, exponentPart, true_or, if_true, hsign, htake,
      List.isEmpty_eq_false_iff.2 hdigits.1, Bool.false_eq_true, if_false,
      Numeral.digitsValue_toDigits, hvalue]

/-- The characters of parts split into the parts. -/
theorem splits_partsChars {negative : Bool} {whole fraction : List Char} {exponent : Option Int}
    (h : RealParts negative whole fraction exponent) :
    Splits (partsChars negative whole fraction exponent) negative whole fraction exponent [] := by
  have hexponent : ∀ c ∈ (exponentChars exponent).head?, c.isDigit = false ∧ c ≠ '.' := by
    intro c hc
    cases exponent with
    | none => simp [exponentChars] at hc
    | some i =>
      obtain rfl : 'e' = c := Option.some.inj hc
      decide
  refine ⟨_, _, _, Numeral.takeMinus_sign ?_, takeDigits_append h.digits.2 ?_, ?_,
    exponentPart_exponentChars exponent⟩
  · rw [List.head?_append, List.head?_eq_some_head h.digits.1, Option.some_or]
    intro hhead
    have hdigit := h.digits.2 _ (List.head_mem h.digits.1)
    rw [Option.some.inj hhead] at hdigit
    contradiction
  · intro c hc
    split at hc
    · exact (hexponent c hc).1
    · obtain rfl : '.' = c := Option.some.inj hc
      decide
  · by_cases hnil : fraction = []
    · rw [hnil]
      exact fractionPart_of_ne fun c hc => (hexponent c hc).2
    · have hne : fraction.isEmpty = false := List.isEmpty_eq_false_iff.2 hnil
      have htake := takeDigits_append h.fractionDigits fun c hc => (hexponent c hc).1
      rw [hne, if_neg Bool.false_ne_true, List.cons_append]
      simp only [fractionPart, htake, hne, Bool.false_eq_true, if_false]

/-- A number with the parts of one that is not an integer is read as the number near to it. -/
theorem number_partsChars {negative : Bool} {whole fraction : List Char} {exponent : Option Int}
    (h : RealParts negative whole fraction exponent) :
    number false (partsChars negative whole fraction exponent) =
      some (real (scaledValue ⟨negative, whole, fraction, exponent.getD 0⟩), []) := by
  have hinteger : ¬ (fraction.isEmpty = true ∧ exponent = none ∧
      fitsWord (if negative = true then -(digitsValue whole : Int) else digitsValue whole) = true ∧
        ¬ (negative = true ∧ (digitsValue whole : Int) = 0)) := by
    rintro ⟨hnil, hnone, -⟩
    rcases h.marked with hfraction | hsome
    · exact hfraction (List.isEmpty_iff.1 hnil)
    · exact hsome hnone
  exact number_eq_some_iff.2 ⟨negative, whole, fraction, exponent, ⟨splits_partsChars h, h.digits.1,
    h.no_leading_zero, fun _ => h.inRange⟩, (if_neg hinteger).symm⟩

/-! ## The text of a number -/

/-- A number is written in its decimal digits. -/
theorem toList_toString_nat (n : Nat) : (toString n).toList = Nat.toDigits 10 n :=
  Nat.toList_repr

/-- A numeral is as long as it has digits. -/
theorem length_toString_nat (n : Nat) : (toString n).length = (Nat.toDigits 10 n).length := by
  rw [← toList_toString_nat, String.length_toList]

section

variable {d : Decimal} (negative : Bool)

/-- A numeral in front of others begins with no superfluous zero. -/
theorem no_leading_zero_toDigits (hd : d.digits ≠ 0) {tail : List Char} :
    ¬ (1 < (Nat.toDigits 10 d.digits ++ tail).length ∧
      (Nat.toDigits 10 d.digits ++ tail).head? = some '0') := by
  rintro ⟨-, hhead⟩
  rw [List.head?_append, List.head?_eq_some_head Nat.toDigits_ne_nil, Option.some_or,
    ← List.head?_eq_some_head] at hhead
  exact hd (Numeral.head?_toDigits hhead)

/-- A zero is a digit. -/
theorem digits_zero : Digits ['0'] := by
  refine ⟨List.cons_ne_nil _ _, fun c hc => ?_⟩
  rw [List.mem_singleton.1 hc]
  decide

/-- A run of zeros is made of digits. -/
theorem isDigit_of_mem_zeros {k : Nat} {c : Char} (h : c ∈ List.replicate k '0') :
    c.isDigit = true := by
  rw [List.eq_of_mem_replicate h]
  decide

/-- With the point behind all digits: zeros fill the whole up to the point, and the fraction is a
zero. -/
theorem realParts_behind (hd : d.digits ≠ 0) {zeros : Nat} (hexponent : d.exponent = zeros)
    (hshort : (Nat.toDigits 10 d.digits).length + zeros ≤ 16) :
    let whole := Nat.toDigits 10 d.digits ++ List.replicate zeros '0'
    RealParts negative whole ['0'] none ∧
      Numeral.value ⟨negative, whole, ['0'], 0⟩ = .ofDecimal negative d.digits d.exponent := by
  have hdigits := Numeral.digits_toDigits d.digits
  have hwhole : ∀ c ∈ Nat.toDigits 10 d.digits ++ List.replicate zeros '0', c.isDigit = true :=
    fun c hc => (List.mem_append.1 hc).elim (hdigits.2 c) isDigit_of_mem_zeros
  refine ⟨⟨⟨by simp [hdigits.1], hwhole⟩, no_leading_zero_toDigits hd, digits_zero.2, by simp, ?_⟩,
    ?_⟩
  · apply Numeral.scaledValue_isFinite_of_short _ _ hwhole
    rw [List.length_append, List.length_replicate]
    omega
  · have htenths := Magnitude.ofDecimal_tenths (e := zeros) hd (by omega)
    have hvalue : digitsValue ((Nat.toDigits 10 d.digits ++ List.replicate zeros '0') ++ ['0']) =
        d.digits * 10 ^ zeros * 10 := by
      refine (Numeral.digitsValue_append_zeros _ 1).trans ?_
      rw [Numeral.digitsValue_append_zeros, Numeral.digitsValue_toDigits, Nat.pow_one]
    rw [Numeral.value, hexponent, Binary64.ofDecimal, Binary64.ofDecimal, ← htenths]
    exact congrArg (fun n => Binary64.signed negative (Magnitude.ofDecimal n (-1))) hvalue

/-- With the point among the digits: some are before the point and the others behind it. -/
theorem realParts_among (hd : d.digits ≠ 0) {before : Nat}
    (hbefore : ((Nat.toDigits 10 d.digits).length : Int) + d.exponent = before)
    (hpositive : 0 < before) (hinside : before < (Nat.toDigits 10 d.digits).length)
    (hshort : before ≤ 16) :
    let whole := (Nat.toDigits 10 d.digits).take before
    let fraction := (Nat.toDigits 10 d.digits).drop before
    fraction ≠ [] ∧ RealParts negative whole fraction none ∧
      Numeral.value ⟨negative, whole, fraction, 0⟩ = .ofDecimal negative d.digits d.exponent := by
  have hdigits := Numeral.digits_toDigits d.digits
  have htake : ∀ c ∈ (Nat.toDigits 10 d.digits).take before, c.isDigit = true :=
    fun c hc => hdigits.2 c (List.mem_of_mem_take hc)
  have hdrop : (Nat.toDigits 10 d.digits).drop before ≠ [] := by
    rw [Ne, List.drop_eq_nil_iff]
    omega
  refine ⟨hdrop, ⟨⟨?_, htake⟩, ?_, fun c hc => hdigits.2 c (List.mem_of_mem_drop hc), Or.inl hdrop,
    ?_⟩, ?_⟩
  · rw [Ne, List.take_eq_nil_iff, not_or]
    exact ⟨by omega, hdigits.1⟩
  · rintro ⟨-, hhead⟩
    rw [List.head?_take, if_neg (by omega)] at hhead
    exact hd (Numeral.head?_toDigits hhead)
  · apply Numeral.scaledValue_isFinite_of_short _ _ htake
    rw [List.length_take]
    omega
  · have hexponent : (0 : Int) - ((Nat.toDigits 10 d.digits).drop before).length = d.exponent := by
      rw [List.length_drop]
      omega
    rw [Numeral.value, List.take_append_drop, Numeral.digitsValue_toDigits, hexponent]

/-- With the point before all digits: the whole is a zero, and zeros stand in front of the digits of
the fraction. -/
theorem realParts_before {zeros : Nat}
    (hzeros : ((Nat.toDigits 10 d.digits).length : Int) + d.exponent = -zeros) :
    let fraction := List.replicate zeros '0' ++ Nat.toDigits 10 d.digits
    RealParts negative ['0'] fraction none ∧
      Numeral.value ⟨negative, ['0'], fraction, 0⟩ = .ofDecimal negative d.digits d.exponent := by
  have hdigits := Numeral.digits_toDigits d.digits
  refine ⟨⟨digits_zero, by simp, ?_, by simp [hdigits.1], ?_⟩, ?_⟩
  · exact fun c hc => (List.mem_append.1 hc).elim isDigit_of_mem_zeros (hdigits.2 c)
  · exact Numeral.scaledValue_isFinite_of_short _ _ digits_zero.2 (by decide)
  · have hvalue := Numeral.digitsValue_zeros_append zeros.succ (Nat.toDigits 10 d.digits)
    rw [Numeral.digitsValue_toDigits] at hvalue
    refine congrArg₂ (Binary64.ofDecimal negative) hvalue ?_
    rw [List.length_append, List.length_replicate]
    dsimp only
    omega

/-- Without an exponent a decimal has few digits before the point. -/
theorem exists_positionalText (hd : d.digits ≠ 0)
    (hpoint : Layout.document.positional ((toString d.digits).length + d.exponent) = true) :
    ∃ whole fraction, RealParts negative whole fraction none ∧
      sign negative ++ (Layout.positionalText ".0" d).toList =
        partsChars negative whole fraction none ∧
      Numeral.value ⟨negative, whole, fraction, 0⟩ =
        .ofDecimal negative d.digits d.exponent := by
  have hdigits := Numeral.digits_toDigits d.digits
  rw [length_toString_nat] at hpoint
  simp only [Layout.document, Bool.and_eq_true, decide_eq_true_eq] at hpoint
  unfold Layout.positionalText
  dsimp only
  rw [length_toString_nat]
  split
  · -- the point is behind all digits
    rename_i hexponent
    obtain ⟨zeros, hzeros⟩ := Int.eq_ofNat_of_zero_le hexponent
    obtain ⟨hparts, hvalue⟩ := realParts_behind negative hd hzeros (by omega)
    refine ⟨_, _, hparts, ?_, hvalue⟩
    simp [partsChars, exponentChars, hzeros]
  split
  · -- the point is among the digits
    rename_i hexponent hinside
    obtain ⟨before, hbefore⟩ := Int.eq_ofNat_of_zero_le (le_of_lt hinside)
    obtain ⟨hdrop, hparts, hvalue⟩ :=
      realParts_among negative hd hbefore (by omega) (by omega) (by omega)
    refine ⟨_, _, hparts, ?_, hvalue⟩
    simp [partsChars, exponentChars, hbefore, hdrop]
  · -- the point is before all digits
    obtain ⟨zeros, hzeros⟩ := Int.exists_eq_neg_ofNat (not_lt.1 ‹_›)
    obtain ⟨hparts, hvalue⟩ := realParts_before negative hzeros
    refine ⟨_, _, hparts, ?_, hvalue⟩
    simp [partsChars, exponentChars, hzeros, hdigits.1]

/-- With an exponent a decimal has one digit before the point. -/
theorem exists_exponentText (hread : d.read.isFinite = true) :
    ∃ whole fraction exponent, RealParts negative whole fraction (some exponent) ∧
      sign negative ++ (Layout.exponentText d).toList =
        partsChars negative whole fraction (some exponent) ∧
      Numeral.value ⟨negative, whole, fraction, exponent⟩ =
        .ofDecimal negative d.digits d.exponent := by
  have hdigits := Numeral.digits_toDigits d.digits
  refine ⟨(Nat.toDigits 10 d.digits).take 1, (Nat.toDigits 10 d.digits).drop 1,
    (Nat.toDigits 10 d.digits).length + d.exponent - 1, ⟨⟨?_, ?_⟩, ?_, ?_, Or.inr (by simp), ?_⟩,
    ?_, ?_⟩
  · simp [hdigits.1]
  · exact fun c hc => hdigits.2 c (List.mem_of_mem_take hc)
  · rintro ⟨hlength, -⟩
    rw [List.length_take] at hlength
    omega
  · exact fun c hc => hdigits.2 c (List.mem_of_mem_drop hc)
  · rw [Option.getD_some, d.scaledValue_eq negative]
    exact hread
  · simp only [Layout.exponentText, length_toString_nat, toList_toString_nat]
    generalize (Nat.toDigits 10 d.digits).drop 1 = fraction
    cases fraction with
    | nil => simp [partsChars, exponentChars]
    | cons c rest => simp [partsChars, exponentChars]
  · have hlength := List.length_pos_iff.2 hdigits.1
    have hexponent : (Nat.toDigits 10 d.digits).length + d.exponent - 1 -
        ((Nat.toDigits 10 d.digits).drop 1).length = d.exponent := by
      rw [List.length_drop]
      omega
    rw [Numeral.value, List.take_append_drop, Numeral.digitsValue_toDigits, hexponent]

end

/-- The text of a finite number has the parts of one that is not an integer, and the number is the
nearest to what they denote. -/
theorem exists_chars_real {negative : Bool} {m : Magnitude} (hm : m.isFinite = true) :
    ∃ whole fraction exponent, RealParts negative whole fraction exponent ∧
      chars (real (.signed negative m)) = partsChars negative whole fraction exponent ∧
      Numeral.value ⟨negative, whole, fraction, exponent.getD 0⟩ = .signed negative m := by
  have hfinite : m ≠ .infinity := by
    rintro rfl
    contradiction
  have hsign : (if negative = true then "-" else "").toList = sign negative := by
    cases negative <;> rfl
  have hchars : chars (real (.signed negative m)) = sign negative ++
      (if m = .zero then "0.0" else Layout.document.magnitudeText m).toList := by
    simp only [chars, Binary64.documentText, if_neg hfinite, String.toList_append, hsign]
  rw [hchars]
  by_cases hzero : m = .zero
  · refine ⟨['0'], ['0'], none, ⟨digits_zero, by simp, digits_zero.2, by simp, ?_⟩, ?_, ?_⟩
    · exact Numeral.scaledValue_isFinite_of_short _ _ digits_zero.2 (by decide)
    · rw [if_pos hzero]
      rfl
    · rw [hzero]
      rfl
  · have hread := Magnitude.read_shortest_isFinite hm hzero
    have hdigits := Magnitude.digits_shortest_ne_zero .toEven hzero
    have hnearest := congrArg (Binary64.signed negative)
      (Magnitude.ofDecimal_shortest .toEven hm hzero)
    rw [if_neg hzero, Layout.magnitudeText]
    split
    · rename_i hpoint
      obtain ⟨whole, fraction, hparts, htext, hvalue⟩ :=
        exists_positionalText negative hdigits hpoint
      exact ⟨whole, fraction, none, hparts, htext, hvalue.trans hnearest⟩
    · obtain ⟨whole, fraction, exponent, hparts, htext, hvalue⟩ :=
        exists_exponentText negative hread
      exact ⟨whole, fraction, some exponent, hparts, htext, hvalue.trans hnearest⟩

/-- No two finite numbers have one text. -/
theorem chars_real_inj {x y : Binary64} (hx : x.isFinite = true) (hy : y.isFinite = true)
    (h : chars (real x) = chars (real y)) : x = y := by
  cases x with
  | nan => contradiction
  | signed negative m =>
    cases y with
    | nan => contradiction
    | signed negative' m' =>
      obtain ⟨whole, fraction, exponent, hparts, htext, hvalue⟩ := exists_chars_real hx
      obtain ⟨whole', fraction', exponent', hparts', htext', hvalue'⟩ := exists_chars_real hy
      have hsplits := splits_partsChars hparts
      rw [← htext, h, htext'] at hsplits
      obtain ⟨rfl, rfl, rfl, rfl, -⟩ := hsplits.unique (splits_partsChars hparts')
      exact hvalue.symm.trans hvalue'

end Json

namespace Binary64

/-- The number that is read from the text that a document has for a number, if one is. -/
def reread (x : Binary64) : Binary64 :=
  match Json.number false (Json.chars (.real x)) with
  | some (.real y, _) => y
  | _ => x

/-- A finite number is read from its text as a finite number. -/
theorem number_chars_real {x : Binary64} (h : x.isFinite = true) :
    Json.number false (Json.chars (.real x)) = some (.real x.reread, []) ∧
      x.reread.isFinite = true := by
  cases x with
  | nan => contradiction
  | signed negative m =>
    obtain ⟨whole, fraction, exponent, hparts, htext, -⟩ := Json.exists_chars_real h
    have hnumber := Json.number_partsChars hparts
    rw [← htext] at hnumber
    have hreread : (signed negative m).reread =
        scaledValue ⟨negative, whole, fraction, exponent.getD 0⟩ := by
      unfold reread
      rw [hnumber]
    rw [hreread]
    exact ⟨hnumber, hparts.inRange⟩

end Binary64

end CourseQuery
