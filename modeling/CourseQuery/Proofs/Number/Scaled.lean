import CourseQuery.Number.Shortest
import CourseQuery.Proofs.Number.Integers

/-!
# Scaling stays in range

A number that is scaled down stays finite, since each step divides by at least one. Scaling up
rounds twice before the product is rounded, each time by at most one part in 2^52, so the product
stays finite unless what is scaled lies within a few codes of infinity. For the shortest digits of a
finite magnitude that leaves five codes, and their digits are scaled to finite magnitudes too.
-/

set_option autoImplicit false

namespace CourseQuery

namespace Magnitude

/-! ## Rounded magnitudes -/

/-- The code of 1 has the units of 1. -/
theorem unitsOfCode_one : unitsOfCode (1023 * binade) = unitsOfOne := by decide +kernel

/-- Rounding a number that is not too small errs by at most one part in a binade. -/
theorem units_ofUnits_mul_le {num den : Nat} (hden : 0 < den) (h : binade * den ≤ num) :
    (ofUnits num den).units * den * binade ≤ num * (binade + 1) := by
  have hbinade : unitsOfCode binade = binade := by decide
  refine Nat.le_trans ?_ (unitsOfCode_roundCode_mul_le hden (by rwa [hbinade]))
  apply Nat.mul_le_mul_right
  apply Nat.mul_le_mul_right
  exact unitsOfCode_strictMono.monotone (Nat.min_le_left _ _)

/-- A decimal with an exponent that is not negative is rounded as the whole number that it is. -/
theorem ofDecimal_natCast {n e : Nat} (hn : n ≠ 0) (he : e ≤ 310) :
    ofDecimal n e = ofUnits (n * 10 ^ e * unitsOfOne) 1 := by
  unfold ofDecimal
  rw [if_neg hn, if_neg (by omega), if_neg (by omega), if_pos (by omega)]
  rfl

/-- A whole number is rounded up by at most one part in 2^52. -/
theorem units_ofDecimal_mul_le {n e : Nat} (hn : n ≠ 0) (he : e ≤ 310) :
    (ofDecimal n e).units * binade ≤ n * 10 ^ e * unitsOfOne * (binade + 1) := by
  have hpos : 0 < n * 10 ^ e := Nat.mul_pos (Nat.pos_of_ne_zero hn) (Nat.pow_pos (by decide))
  have hbinade : binade ≤ unitsOfOne := by decide +kernel
  have hnormal : binade * 1 ≤ n * 10 ^ e * unitsOfOne := by
    rw [Nat.mul_one]
    exact Nat.le_trans hbinade (Nat.le_mul_of_pos_left _ hpos)
  rw [ofDecimal_natCast hn he]
  have h := units_ofUnits_mul_le Nat.one_pos hnormal
  rwa [Nat.mul_one] at h

/-- A power of ten is at least one. -/
theorem unitsOfOne_le_tenTo {e : Nat} (he : e ≤ longestStep) : unitsOfOne ≤ (tenTo e).units := by
  have hpow : 0 < 10 ^ e := Nat.pow_pos (by decide)
  have hcode : 1023 * binade ≤ (tenTo e).code := by
    rw [tenTo, ofDecimal_natCast (by decide) (Nat.le_trans he (by decide))]
    refine Nat.le_min.2 ⟨le_roundCode Nat.one_pos ?_, by decide⟩
    rw [unitsOfCode_one, Nat.mul_one, Nat.one_mul]
    exact Nat.le_mul_of_pos_left _ hpow
  rw [← unitsOfCode_one]
  exact unitsOfCode_strictMono.monotone hcode

/-! ## Scaling down -/

/-- A finite number divided by one that is at least 1 is finite. -/
theorem div_isFinite {m t : Magnitude} (hm : m.isFinite = true) (ht : unitsOfOne ≤ t.units) :
    (m.div t).isFinite = true := by
  have hcode : roundCode (m.units * unitsOfOne) t.units ≤ m.code :=
    roundCode_le (Nat.lt_of_lt_of_le unitsOfOne_pos ht) (Nat.mul_le_mul_left _ ht)
  have hlt : m.code < infinityCode := of_decide_eq_true hm
  refine decide_eq_true (Nat.lt_of_le_of_lt (Nat.min_le_left _ _) ?_)
  exact Nat.lt_of_le_of_lt hcode hlt

/-- Scaling a finite number down leaves it finite. -/
theorem scaleDown_isFinite (m : Magnitude) (e : Nat) (hm : m.isFinite = true) :
    (m.scaleDown e).isFinite = true := by
  induction m, e using scaleDown.induct with
  | case1 m e he =>
    rw [scaleDown, dif_pos he]
    exact div_isFinite hm (unitsOfOne_le_tenTo he)
  | case2 e he =>
    rw [scaleDown, dif_neg he, if_pos rfl]
    decide
  | case3 m e he hne ih =>
    rw [scaleDown, dif_neg he, if_neg hne]
    exact ih (div_isFinite hm (unitsOfOne_le_tenTo (Nat.le_refl _)))

/-- Scaling a finite number by an exponent that is not positive leaves it finite. -/
theorem scale_isFinite_of_nonpos {m : Magnitude} (hm : m.isFinite = true) {e : Int} (he : e ≤ 0) :
    (m.scale e).isFinite = true := by
  rcases Int.lt_or_eq_of_le he with hneg | rfl
  · rw [scale, if_neg (by omega)]
    exact scaleDown_isFinite m _ hm
  · rw [scale_zero hm]
    exact hm

/-! ## Scaling up -/

/-- Scaling zero up leaves it finite. -/
theorem scaleUp_zero_isFinite (e : Nat) : (zero.scaleUp e).isFinite = true := by
  have hunits : zero.units = 0 := by decide
  unfold scaleUp
  split
  · rw [mul, hunits, Nat.zero_mul]
    apply ofUnits_isFinite
    rw [Nat.zero_div]
    decide +kernel
  · rw [if_pos rfl]
    decide

/-- What is far enough below 2^1024 is scaled to a finite magnitude. -/
theorem scaleUp_isFinite {n e : Nat} (h : n * 10 ^ e * unitsOfOne * (binade + 1) ^ 2 <
    unitsOfCode (infinityCode - 1) * binade ^ 2) :
    ((ofDecimal n 0).scaleUp e).isFinite = true := by
  by_cases hn : n = 0
  · subst hn
    exact scaleUp_zero_isFinite e
  have hstep : e ≤ longestStep := by
    by_contra hlong
    have hlimit : unitsOfCode (infinityCode - 1) * binade ^ 2 ≤
        10 ^ (longestStep + 1) * unitsOfOne * (binade + 1) ^ 2 := by decide +kernel
    have hpow : 10 ^ (longestStep + 1) ≤ n * 10 ^ e :=
      Nat.le_trans (Nat.pow_le_pow_right (by decide) (by omega))
        (Nat.le_mul_of_pos_left _ (Nat.pos_of_ne_zero hn))
    refine absurd h (Nat.not_lt.2 (Nat.le_trans hlimit ?_))
    exact Nat.mul_le_mul_right _ (Nat.mul_le_mul_right _ hpow)
  have hwhole : (ofDecimal n 0).units * binade ≤ n * unitsOfOne * (binade + 1) := by
    have := units_ofDecimal_mul_le (e := 0) hn (by decide)
    rwa [Nat.pow_zero, Nat.mul_one] at this
  have hpower : (tenTo e).units * binade ≤ 10 ^ e * unitsOfOne * (binade + 1) := by
    have := units_ofDecimal_mul_le (n := 1) (by decide) (Nat.le_trans hstep (by decide))
    rwa [Nat.one_mul] at this
  rw [scaleUp, if_pos hstep, mul]
  apply ofUnits_isFinite
  rw [Nat.div_lt_iff_lt_mul unitsOfOne_pos]
  refine Nat.lt_of_mul_lt_mul_right (a := binade ^ 2) ?_
  calc (ofDecimal n 0).units * (tenTo e).units * binade ^ 2
      = (ofDecimal n 0).units * binade * ((tenTo e).units * binade) := by ring
    _ ≤ n * unitsOfOne * (binade + 1) * (10 ^ e * unitsOfOne * (binade + 1)) :=
        Nat.mul_le_mul hwhole hpower
    _ = n * 10 ^ e * unitsOfOne * (binade + 1) ^ 2 * unitsOfOne := by ring
    _ < unitsOfCode (infinityCode - 1) * binade ^ 2 * unitsOfOne :=
        Nat.mul_lt_mul_of_pos_right h unitsOfOne_pos
    _ = unitsOfCode (infinityCode - 1) * unitsOfOne * binade ^ 2 := by ring

/-! ## The shortest digits -/

/-- A power of ten is positive. -/
theorem powerOfTen_pos (n : Nat) : 0 < powerOfTen n :=
  Nat.pow_pos (by decide)

/-- A decimal that rounds to a magnitude, or is it, lies below the next magnitude. -/
def Below (d : Decimal) (m : Magnitude) : Prop :=
  d.digits * 10 ^ d.exponent.toNat * unitsOfOne <
    unitsOfCode (m.code + 1) * 10 ^ (-d.exponent).toNat

/-- A fraction that is not too great is rounded to the nearest code. -/
theorem code_ofUnits {num den : Nat} (h : (ofUnits num den).isFinite = true) :
    (ofUnits num den).code = roundCode num den := by
  have hlt : min (roundCode num den) infinityCode < infinityCode := of_decide_eq_true h
  exact Nat.min_eq_left (by omega)

/-- A decimal that is read as a finite number other than zero lies below the next one. -/
theorem below_of_ofDecimal {d : Decimal} {m : Magnitude} (hm : m.isFinite = true) (hne : m ≠ zero)
    (h : ofDecimal d.digits d.exponent = m) : Below d m := by
  unfold ofDecimal at h
  split at h
  · exact absurd h.symm hne
  split at h
  · rw [← h] at hm
    contradiction
  split at h
  · exact absurd h.symm hne
  unfold Below
  split at h
  · rename_i hexponent
    rw [← h] at hm ⊢
    rw [code_ofUnits hm, show (-d.exponent).toNat = 0 by omega, Nat.pow_zero]
    exact lt_unitsOfCode_succ_roundCode Nat.one_pos
  · rename_i hexponent
    rw [← h] at hm ⊢
    rw [code_ofUnits hm, show d.exponent.toNat = 0 by omega, Nat.pow_zero, Nat.mul_one]
    exact lt_unitsOfCode_succ_roundCode (powerOfTen_pos (-d.exponent).toNat)

/-- A decimal that is found on a grid is read as the number that it was found for. -/
theorem ofDecimal_of_onGrid {tie : Tie} {m : Magnitude} {exponent : Int} {d : Decimal}
    (h : m.onGrid tie exponent = some d) : ofDecimal d.digits d.exponent = m := by
  unfold onGrid at h
  dsimp only at h
  split at h
  · rename_i hreads
    rw [← Option.some.inj h]
    exact hreads.1
  · split at h
    · rename_i hreads
      rw [← Option.some.inj h]
      exact hreads
    · contradiction

/-- On the grid of the smallest magnitude every magnitude is exact. -/
theorem below_exact {k : Nat} (hk : unitsOfOne = 1 <<< k) (m : Magnitude) :
    Below ⟨m.units * Nat.pow 5 k, -k⟩ m := by
  have hunits : m.units < unitsOfCode (m.code + 1) := unitsOfCode_lt_succ m.code
  have hpower : Nat.pow 5 k * unitsOfOne = 10 ^ k := by
    rw [hk, Nat.one_shiftLeft]
    exact (Nat.mul_pow 5 2 k).symm
  have hpos : 0 < 10 ^ k := Nat.pow_pos (by decide)
  unfold Below
  dsimp only
  rw [Int.neg_neg, Int.toNat_natCast, Int.toNat_neg_natCast, Nat.pow_zero, Nat.mul_one,
    Nat.mul_assoc, hpower]
  exact Nat.mul_lt_mul_of_pos_right hunits hpos

/-- A search ends on the first grid that reads back or on the finest one. -/
theorem searchGrids_cases (tie : Tie) (m : Magnitude) (fuel : Nat) (exponent : Int) :
    (∃ d, m.searchGrids tie fuel exponent = d ∧ ofDecimal d.digits d.exponent = m) ∨
      ∃ k : Nat, unitsOfOne = 1 <<< k ∧
        m.searchGrids tie fuel exponent = ⟨m.units * Nat.pow 5 k, -k⟩ := by
  induction fuel generalizing exponent with
  | zero =>
    obtain ⟨k, hk⟩ : ∃ k, k = 1074 := ⟨_, rfl⟩
    have hfinest : (-1074 : Int) = -k := by
      rw [hk]
      rfl
    refine Or.inr ⟨k, ?_, ?_⟩
    · rw [hk]
      rfl
    · rw [searchGrids, hfinest, ← hk]
  | succ fuel ih =>
    rw [searchGrids]
    split
    · rename_i d hd
      exact Or.inl ⟨d, rfl, ofDecimal_of_onGrid hd⟩
    · exact ih (exponent - 1)

section

variable (tie : Tie) {m : Magnitude} (hne : m ≠ zero)

include hne

/-- The shortest digits of a magnitude lie below the next magnitude. -/
theorem below_shortest (hm : m.isFinite = true) : Below (m.shortest tie) m := by
  rcases searchGrids_cases tie m (m.topExponent + 1074).toNat m.topExponent with
    ⟨d, hd, hreads⟩ | ⟨k, hk, hexact⟩
  · rw [shortest, hd]
    exact below_of_ofDecimal hm hne hreads
  · rw [shortest, hexact]
    exact below_exact hk m

omit tie in
/-- A number other than zero has units. -/
theorem units_ne_zero : m.units ≠ 0 := by
  intro hzero
  have hcode : m.code ≤ 0 := unitsOfCode_strictMono.le_iff_le.1 (Nat.le_of_eq hzero)
  obtain ⟨c, hc⟩ := m
  obtain rfl : c = 0 := Nat.le_zero.1 hcode
  exact hne rfl

/-- The shortest decimal of a number other than zero has digits. -/
theorem digits_shortest_ne_zero : (m.shortest tie).digits ≠ 0 := by
  rcases searchGrids_cases tie m (m.topExponent + 1074).toNat m.topExponent with
    ⟨d, hd, hreads⟩ | ⟨k, -, hexact⟩
  · rw [shortest, hd]
    intro hzero
    rw [hzero] at hreads
    exact hne hreads.symm
  · rw [shortest, hexact]
    exact Nat.mul_ne_zero (units_ne_zero hne) (Nat.pow_pos (by decide)).ne'

end

end Magnitude

/-! ## Digits that are taken up -/

namespace Numeral

/-- Digits have a value below the power of ten of their number. -/
theorem digitsValue_lt_pow {digits : List Char} (h : ∀ c ∈ digits, c.isDigit = true) :
    digitsValue digits < 10 ^ digits.length := by
  rw [digitsValue_eq]
  induction digits with
  | nil => simp
  | cons c rest ih =>
    have hrest := ih fun d hd => h d (List.mem_cons_of_mem c hd)
    have hdigit : c.toNat - '0'.toNat ≤ 9 := by
      have hc := h c List.mem_cons_self
      simp only [Char.isDigit, Bool.and_eq_true, decide_eq_true_eq] at hc
      have hnine : c.toNat ≤ '9'.toNat := hc.2
      have hzero : '0'.toNat = 48 := rfl
      have hvalue : '9'.toNat = 57 := rfl
      omega
    rw [Nat.ofDigitChars_cons, Nat.ofDigitChars_eq_ofDigitChars_zero, List.length_cons,
      Nat.pow_succ]
    have hfirst : 10 ^ rest.length * (10 * 0 + (c.toNat - '0'.toNat)) ≤ 10 ^ rest.length * 9 :=
      Nat.mul_le_mul_left _ (by omega)
    omega

/-- Digits that are left over are dropped, so a significand is no greater than all digits. -/
theorem gather_le (digits : List Char) {front : Nat} (h : front < UInt64.size) :
    (gather front digits).1 < UInt64.size ∧ (gather front digits).2 ≤ digits.length ∧
      (gather front digits).1 * 10 ^ (gather front digits).2 ≤
        Nat.ofDigitChars 10 digits front := by
  induction digits generalizing front with
  | nil => exact ⟨h, Nat.le_refl 0, Nat.le_of_eq (Nat.mul_one front)⟩
  | cons c rest ih =>
    have hdigit : digitsValue [c] = c.toNat - '0'.toNat := Nat.zero_add _
    rw [Nat.ofDigitChars_cons, gather, hdigit]
    split
    · rename_i hlonger
      obtain ⟨hsize, hlength, hvalue⟩ := ih hlonger
      exact ⟨hsize, Nat.le_succ_of_le hlength, hvalue⟩
    · refine ⟨h, Nat.le_refl _, ?_⟩
      rw [Nat.ofDigitChars_eq_ofDigitChars_zero, Nat.pow_succ]
      have hfront : front * (10 ^ rest.length * 10) =
          10 ^ rest.length * (10 * front) := by ring
      rw [hfront, Nat.mul_add]
      omega

/-- A numeral without an exponent that has few digits before the point is in range. -/
theorem scaledValue_isFinite_of_short (negative : Bool) {whole : List Char} (fraction : List Char)
    (hdigits : ∀ c ∈ whole, c.isDigit = true) (hlength : whole.length ≤ 16) :
    (scaledValue ⟨negative, whole, fraction, 0⟩).isFinite = true := by
  have hlimit : 10 ^ 16 < UInt64.size := by decide
  have hvalue : digitsValue whole < UInt64.size :=
    Nat.lt_of_lt_of_le (digitsValue_lt_pow hdigits)
      (Nat.le_trans (Nat.pow_le_pow_right (by decide) hlength) (Nat.le_of_lt hlimit))
  have hgather : gather 0 whole = (digitsValue whole, 0) := by
    rw [digitsValue_eq] at hvalue ⊢
    exact gather_eq hvalue
  obtain ⟨hsize, hdropped, -⟩ := gather_le fraction hvalue
  simp only [scaledValue, hgather]
  apply Magnitude.scale_isFinite_of_nonpos (Magnitude.ofDecimal_whole_isFinite hsize)
  omega

end Numeral

/-! ## Shortest digits that are read -/

/-- The magnitude that is read from the digits and the exponent of a decimal. -/
def Decimal.read (d : Decimal) : Magnitude :=
  let (significand, dropped) := Numeral.gather 0 (Nat.toDigits 10 d.digits)
  (Magnitude.ofDecimal significand 0).scale (d.exponent + dropped)

/-- With one digit before the point and an exponent a decimal is read as its digits are. -/
theorem Decimal.scaledValue_eq (d : Decimal) (negative : Bool) :
    Numeral.scaledValue ⟨negative, (Nat.toDigits 10 d.digits).take 1,
      (Nat.toDigits 10 d.digits).drop 1, (Nat.toDigits 10 d.digits).length + d.exponent - 1⟩ =
        .signed negative d.read := by
  have hdigits := Numeral.digits_toDigits d.digits
  unfold read
  cases hcons : Nat.toDigits 10 d.digits with
  | nil => exact absurd hcons hdigits.1
  | cons c rest =>
    rw [hcons] at hdigits
    have hfirst : 10 * 0 + Numeral.digitsValue [c] < UInt64.size := by
      have hlt := @Numeral.digitsValue_lt_pow [c] fun a ha =>
        hdigits.2 a (List.mem_singleton.1 ha ▸ List.mem_cons_self)
      have hlimit : 10 ^ 1 < UInt64.size := by decide
      rw [Nat.mul_zero, Nat.zero_add]
      exact Nat.lt_trans hlt hlimit
    have hwhole : Numeral.gather 0 [c] = (10 * 0 + Numeral.digitsValue [c], 0) := by
      rw [Numeral.gather, if_pos hfirst, Numeral.gather]
    have hall : Numeral.gather 0 (c :: rest) =
        Numeral.gather (10 * 0 + Numeral.digitsValue [c]) rest := by
      rw [Numeral.gather, if_pos hfirst]
    simp only [Numeral.scaledValue, List.take_succ_cons, List.take_zero, List.drop_succ_cons,
      List.drop_zero, hwhole, hall, List.length_cons]
    refine congrArg (fun e => Binary64.signed negative (Magnitude.scale _ e)) ?_
    omega

/-- A decimal is read as a finite magnitude when it lies below one that is five codes or more from
infinity. -/
theorem Decimal.read_isFinite {d : Decimal} {m : Magnitude} (hbelow : m.Below d)
    (hm : m.code + 1 ≤ infinityCode - 5) : d.read.isFinite = true := by
  cases hgather : Numeral.gather 0 (Nat.toDigits 10 d.digits) with
  | mk n k =>
    have hzero : 0 < UInt64.size := by decide
    obtain ⟨hsize, -, hvalue⟩ := Numeral.gather_le (Nat.toDigits 10 d.digits) hzero
    rw [hgather] at hsize hvalue
    rw [Nat.ofDigitChars_ten_toDigits] at hvalue
    simp only [read, hgather]
    by_cases hexponent : d.exponent + k ≤ 0
    · exact Magnitude.scale_isFinite_of_nonpos (Magnitude.ofDecimal_whole_isFinite hsize) hexponent
    rw [Magnitude.scale, if_pos (by omega)]
    apply Magnitude.scaleUp_isFinite
    have hpowers : (d.exponent + k).toNat + (-d.exponent).toNat = k + d.exponent.toNat := by omega
    have hunits : n * 10 ^ (d.exponent + k).toNat * unitsOfOne < unitsOfCode (m.code + 1) := by
      apply Nat.lt_of_mul_lt_mul_right (a := 10 ^ (-d.exponent).toNat)
      calc n * 10 ^ (d.exponent + k).toNat * unitsOfOne * 10 ^ (-d.exponent).toNat
          = n * 10 ^ ((d.exponent + k).toNat + (-d.exponent).toNat) * unitsOfOne := by ring
        _ = n * 10 ^ k * 10 ^ d.exponent.toNat * unitsOfOne := by
            rw [hpowers, Nat.pow_add]
            ring
        _ ≤ d.digits * 10 ^ d.exponent.toNat * unitsOfOne :=
            Nat.mul_le_mul_right _ (Nat.mul_le_mul_right _ hvalue)
        _ < unitsOfCode (m.code + 1) * 10 ^ (-d.exponent).toNat := hbelow
    have hroom : unitsOfCode (infinityCode - 5) * (binade + 1) ^ 2 ≤
        unitsOfCode (infinityCode - 1) * binade ^ 2 := by decide +kernel
    calc n * 10 ^ (d.exponent + k).toNat * unitsOfOne * (binade + 1) ^ 2
        < unitsOfCode (m.code + 1) * (binade + 1) ^ 2 :=
          Nat.mul_lt_mul_of_pos_right hunits (Nat.pow_pos (Nat.succ_pos _))
      _ ≤ unitsOfCode (infinityCode - 5) * (binade + 1) ^ 2 :=
          Nat.mul_le_mul_right _ (unitsOfCode_strictMono.monotone hm)
      _ ≤ unitsOfCode (infinityCode - 1) * binade ^ 2 := hroom

/-- Next to infinity the shortest digits are read as finite magnitudes, one by one. -/
theorem Magnitude.read_shortest_top : ∀ j : Fin 5, ∀ h : infinityCode - 5 + j ≤ infinityCode,
    ((⟨infinityCode - 5 + j, h⟩ : Magnitude).shortest .toEven).read.isFinite = true := by
  decide +kernel

/-- The shortest digits of a finite magnitude are read as a finite magnitude. -/
theorem Magnitude.read_shortest_isFinite {m : Magnitude} (hm : m.isFinite = true)
    (hne : m ≠ zero) : (m.shortest .toEven).read.isFinite = true := by
  by_cases hfar : m.code + 1 ≤ infinityCode - 5
  · exact Decimal.read_isFinite (below_shortest .toEven hne hm) hfar
  · obtain ⟨c, hc⟩ := m
    have hlt : c < infinityCode := of_decide_eq_true hm
    have hcode : 5 ≤ infinityCode := by decide
    obtain ⟨j, rfl⟩ : ∃ j : Fin 5, c = infinityCode - 5 + j := by
      refine ⟨⟨c - (infinityCode - 5), ?_⟩, ?_⟩
      · omega
      · dsimp only at hfar ⊢
        omega
    exact read_shortest_top j hc

end CourseQuery
