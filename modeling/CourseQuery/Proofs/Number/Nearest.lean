import CourseQuery.Proofs.Number.Scaled

/-!
# Shortest digits are nearest digits

The number nearest to the shortest digits of a magnitude is the magnitude. The search sees to it on
every grid but the finest, and there the magnitude is exact. A decimal can also be moved to a finer
grid, which changes neither what it denotes nor what is nearest to it.
-/

set_option autoImplicit false

namespace CourseQuery

namespace Magnitude

/-! ## Decimals on finer grids -/

/-- Rounding depends on the quotient alone. -/
theorem roundCode_mul_mul {k : Nat} (hk : 0 < k) (num den : Nat) :
    roundCode (num * k) (den * k) = roundCode num den := by
  have hquotient : num * k / (den * k) = num / den := Nat.mul_div_mul_right num den hk
  have hmiddle : ∀ n, 2 * (num * k) < den * k * n ↔ 2 * num < den * n := fun n => by
    rw [show 2 * (num * k) = 2 * num * k by ring, show den * k * n = den * n * k by ring]
    exact Nat.mul_lt_mul_right hk
  have hmiddle' : ∀ n, den * k * n < 2 * (num * k) ↔ den * n < 2 * num := fun n => by
    rw [show 2 * (num * k) = 2 * num * k by ring, show den * k * n = den * n * k by ring]
    exact Nat.mul_lt_mul_right hk
  simp only [roundCode, hquotient, hmiddle, hmiddle']

/-- A fraction is rounded in the same way after it was expanded. -/
theorem ofUnits_mul_mul {k : Nat} (hk : 0 < k) (num den : Nat) :
    ofUnits (num * k) (den * k) = ofUnits num den := by
  simp only [ofUnits, roundCode_mul_mul hk]

/-- A whole number with a zero behind the point is the whole number. -/
theorem ofDecimal_tenths {n e : Nat} (hn : n ≠ 0) (he : e ≤ 310) :
    ofDecimal (n * 10 ^ e * 10) (-1) = ofDecimal n e := by
  have hpos : n * 10 ^ e * 10 ≠ 0 :=
    Nat.mul_ne_zero (Nat.mul_ne_zero hn (Nat.pow_pos (by decide)).ne') (by decide)
  have htenths : ofDecimal (n * 10 ^ e * 10) (-1) =
      ofUnits (n * 10 ^ e * 10 * unitsOfOne) (powerOfTen (-(-1 : Int)).toNat) := by
    rw [ofDecimal, if_neg hpos, if_neg (by decide), if_neg (by omega), if_neg (by decide)]
  have hscaled : n * 10 ^ e * 10 * unitsOfOne = n * 10 ^ e * unitsOfOne * 10 := by ring
  rw [htenths, hscaled, ofDecimal_natCast hn he]
  exact ofUnits_mul_mul (by decide) _ 1

/-! ## The shortest digits -/

/-- On the finest grid a magnitude is exact. -/
theorem ofDecimal_exact {m : Magnitude} (hm : m.isFinite = true) (hne : m.units ≠ 0) {k : Nat}
    (hk : unitsOfOne = 1 <<< k) : ofDecimal (m.units * Nat.pow 5 k) (-k) = m := by
  have hbits : k = 1074 := by
    have hpow : 2 ^ 1074 = 2 ^ k := by
      rw [← Nat.one_shiftLeft, ← Nat.one_shiftLeft]
      exact hk
    exact (Nat.pow_right_injective (Nat.le_refl 2) hpow).symm
  have hpower : Nat.pow 5 k * unitsOfOne = 10 ^ k := by
    rw [hk, Nat.one_shiftLeft]
    exact (Nat.mul_pow 5 2 k).symm
  have hdigits : m.units * Nat.pow 5 k ≠ 0 := Nat.mul_ne_zero hne (Nat.pow_pos (by decide)).ne'
  -- the digits are long enough not to be taken for zero
  have hlong : 2 * k ≤ (m.units * Nat.pow 5 k).log2 := by
    rw [Nat.le_log2 hdigits, Nat.pow_mul]
    exact Nat.le_trans (Nat.pow_le_pow_left (by decide) k)
      (Nat.le_mul_of_pos_left _ (Nat.pos_of_ne_zero hne))
  rw [ofDecimal, if_neg hdigits, if_neg (by omega), if_neg (by omega), if_neg (by omega),
    Int.neg_neg, Int.toNat_natCast, Nat.mul_assoc, hpower]
  exact ofUnits_units_mul hm (powerOfTen_pos k)

/-- The magnitude nearest to its shortest digits is the magnitude itself. -/
theorem ofDecimal_shortest (tie : Tie) {m : Magnitude} (hm : m.isFinite = true) (hne : m ≠ zero) :
    ofDecimal (m.shortest tie).digits (m.shortest tie).exponent = m := by
  rcases searchGrids_cases tie m (m.topExponent + 1074).toNat m.topExponent with
    ⟨d, hd, hreads⟩ | ⟨k, hk, hexact⟩
  · rw [shortest, hd]
    exact hreads
  · rw [shortest, hexact]
    exact ofDecimal_exact hm (units_ne_zero hne) hk

end Magnitude

/-! ## Zeros around digits -/

namespace Numeral

/-- Zeros behind digits multiply their value by powers of ten. -/
theorem digitsValue_append_zeros (digits : List Char) (k : Nat) :
    digitsValue (digits ++ List.replicate k '0') = digitsValue digits * 10 ^ k := by
  induction k with
  | zero => rw [List.replicate_zero, List.append_nil, Nat.pow_zero, Nat.mul_one]
  | succ k ih =>
    have hlast : digitsValue (digits ++ List.replicate k '0' ++ ['0']) =
        10 * digitsValue (digits ++ List.replicate k '0') + 0 := by
      rw [digitsValue, List.foldl_append]
      rfl
    rw [List.replicate_succ', ← List.append_assoc, hlast, ih]
    ring

/-- Zeros in front of digits do not change their value. -/
theorem digitsValue_zeros_append (k : Nat) (digits : List Char) :
    digitsValue (List.replicate k '0' ++ digits) = digitsValue digits := by
  induction k with
  | zero => rfl
  | succ k ih => exact ih

end Numeral

end CourseQuery
