import CourseQuery.Proofs.Number.Plain
import CourseQuery.Proofs.Number.Rounding

/-!
# Integers as text and as numbers

An integer is written as a sign and its digits, without a needless zero in front. The digits
denote it again, and where it fits in 64 bits it is read by scaling without a rounding step. A
number that is an integer is the number nearest to that integer, but for the sign of a zero:
`unsignedZero` drops that sign, which is all that a number loses on the way through an integer.
-/

set_option autoImplicit false

namespace CourseQuery

namespace Numeral

/-! ## Digits -/

/-- The decimal digits of a number are digits. -/
theorem digits_toDigits (n : Nat) : Digits (Nat.toDigits 10 n) :=
  ⟨Nat.toDigits_ne_nil, fun _ hc => Nat.isDigit_of_mem_toDigits (by decide) (by decide) hc⟩

/-- The value of digits is that of their places. -/
theorem digitsValue_eq (digits : List Char) : digitsValue digits = Nat.ofDigitChars 10 digits 0 :=
  Nat.ofDigitChars_eq_foldl.symm

/-- The decimal digits of a number have its value. -/
theorem digitsValue_toDigits (n : Nat) : digitsValue (Nat.toDigits 10 n) = n := by
  rw [digitsValue_eq]
  exact Nat.ofDigitChars_ten_toDigits

/-- Only 0 begins with the digit 0. -/
theorem head?_toDigits {n : Nat} (h : (Nat.toDigits 10 n).head? = some '0') : n = 0 := by
  induction n using Nat.strongRecOn with
  | ind n ih =>
    rw [Nat.toDigits_eq_if (by decide)] at h
    split at h
    · simpa using h
    · rename_i hlarge
      rw [List.head?_append, List.head?_eq_some_head Nat.toDigits_ne_nil, Option.some_or,
        ← List.head?_eq_some_head] at h
      have := ih (n / 10) (by omega) h
      omega

/-- A number of more than one digit has no zero in front. -/
theorem no_leading_zero (n : Nat) :
    ¬ (1 < (Nat.toDigits 10 n).length ∧ (Nat.toDigits 10 n).head? = some '0') := by
  rintro ⟨hlength, hhead⟩
  rw [head?_toDigits hhead, Nat.toDigits_zero] at hlength
  exact absurd hlength (by decide)

/-- An integer is written as its sign and the digits of its magnitude. -/
theorem toList_toString_int (i : Int) :
    (toString i).toList = sign (decide (i < 0)) ++ Nat.toDigits 10 i.natAbs := by
  rw [Int.toString_eq_repr, Int.repr_eq_if]
  by_cases hi : 0 ≤ i
  · rw [if_pos hi, decide_eq_false (by omega), Nat.toList_repr, show i.toNat = i.natAbs by omega]
    rfl
  · rw [if_neg hi, decide_eq_true (by omega), String.toList_append, Nat.toList_repr,
      show (-i).toNat = i.natAbs by omega]
    rfl

/-! ## Reading by scaling -/

/-- Further digits never make a number less. -/
theorem le_ofDigitChars (front : Nat) (digits : List Char) :
    front ≤ Nat.ofDigitChars 10 digits front := by
  have hpos : 0 < 10 ^ digits.length := Nat.pow_pos (by decide)
  have hfront := Nat.le_mul_of_pos_left front hpos
  rw [Nat.ofDigitChars_eq_ofDigitChars_zero]
  omega

/-- Digits are gathered to the last one when the number that they make stays within 64 bits. -/
theorem gather_eq {digits : List Char} {front : Nat}
    (h : Nat.ofDigitChars 10 digits front < UInt64.size) :
    gather front digits = (Nat.ofDigitChars 10 digits front, 0) := by
  induction digits generalizing front with
  | nil => rfl
  | cons c rest ih =>
    have hdigit : digitsValue [c] = c.toNat - '0'.toNat := Nat.zero_add _
    rw [Nat.ofDigitChars_cons] at h ⊢
    have hlonger := Nat.lt_of_le_of_lt (le_ofDigitChars _ rest) h
    rw [gather, hdigit]
    exact (if_pos hlonger).trans (ih h)

/-- Digits without a fraction and an exponent have the value of the number nearest to theirs. -/
theorem scaledValue_whole (negative : Bool) {digits : List Char}
    (h : digitsValue digits < UInt64.size) :
    scaledValue ⟨negative, digits, [], 0⟩ =
      .signed negative (.ofDecimal (digitsValue digits) 0) := by
  have hgather : gather 0 digits = (digitsValue digits, 0) := by
    rw [digitsValue_eq] at h ⊢
    exact gather_eq h
  simp only [scaledValue, hgather, gather]
  exact congrArg (Binary64.signed negative)
    (Magnitude.scale_zero (Magnitude.ofDecimal_whole_isFinite h))

end Numeral

namespace Binary64

/-- The number without the sign that a zero may have. -/
def unsignedZero (x : Binary64) : Binary64 :=
  if x = .signed true .zero then .zero else x

/-- Only a negative zero has a sign to lose. -/
theorem unsignedZero_of_ne {x : Binary64} (h : x ≠ .signed true .zero) : x.unsignedZero = x :=
  if_neg h

/-- Both zeros have the same place in the order. -/
@[simp]
theorem rank_unsignedZero (x : Binary64) : x.unsignedZero.rank = x.rank := by
  unfold unsignedZero
  split
  · rename_i h
    rw [h]
    rfl
  · rfl

/-- Losing the sign of zero changes no integer. -/
@[simp]
theorem toInt?_unsignedZero (x : Binary64) : x.unsignedZero.toInt? = x.toInt? := by
  unfold unsignedZero
  split
  · rename_i h
    rw [h]
    decide +kernel
  · rfl

/-- A number that is an integer is the one nearest to the integer. -/
theorem ofInt_of_toInt? {x : Binary64} {i : Int} (h : x.toInt? = some i) :
    ofInt i = x.unsignedZero := by
  cases x with
  | nan => contradiction
  | signed negative m =>
    obtain ⟨n, hn, hi⟩ : ∃ n : Nat, m.toNat? = some n ∧
        (if negative then -(n : Int) else n) = i := by
      simpa [toInt?, Option.bind_eq_some_iff] using h
    have hm := Magnitude.ofDecimal_of_toNat? hn
    have habs : i.natAbs = n := by
      rw [← hi]
      split
      · exact Int.natAbs_neg n
      · rfl
    rw [ofInt, ofDecimal, habs, hm]
    by_cases hzero : n = 0
    · have hmzero : m = .zero := by
        rw [← hm, hzero]
        rfl
      have hsign : decide (i < 0) = false := by
        rw [decide_eq_false_iff_not]
        omega
      rw [hsign, hmzero]
      cases negative <;> rfl
    · have hmne : m ≠ .zero := by
        rintro rfl
        have : Magnitude.zero.toNat? = some 0 := by decide +kernel
        rw [this] at hn
        exact hzero (Option.some.inj hn).symm
      have hsign : decide (i < 0) = negative := by
        cases negative with
        | true =>
          rw [if_pos rfl] at hi
          exact decide_eq_true (by omega)
        | false =>
          rw [if_neg Bool.false_ne_true] at hi
          exact decide_eq_false (by omega)
      rw [hsign, unsignedZero_of_ne]
      intro heq
      injection heq with _ hmagnitude
      exact hmne hmagnitude

/-- An integer whose magnitude fits in 64 bits is finite. -/
theorem ofInt_isFinite {i : Int} (h : i.natAbs < UInt64.size) : (ofInt i).isFinite = true :=
  Magnitude.ofDecimal_whole_isFinite h

/-- The number nearest to an integer of 64 bits is an integer. -/
theorem exists_toInt?_ofInt {i : Int} (h : i.natAbs < UInt64.size) :
    ∃ j, (ofInt i).toInt? = some j := by
  obtain ⟨k, hk⟩ := Magnitude.exists_toNat?_ofDecimal h
  refine ⟨if i < 0 then -(k : Int) else k, ?_⟩
  rw [ofInt, ofDecimal, toInt?, hk]
  simp

end Binary64

end CourseQuery
