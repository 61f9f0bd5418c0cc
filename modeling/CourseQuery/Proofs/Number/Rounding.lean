import CourseQuery.Number.Scaled
import Mathlib.Order.Monotone.Basic
import Mathlib.Tactic.Ring

/-!
# Rounding leaves the binary64 numbers alone

A finite magnitude is found again from its units: the code below its units is its own, and the code
nearest to them is no other. So whatever is exactly a binary64 number is rounded to itself, in
particular a whole number that one denotes. Rounding keeps to the order and goes up by at most one
part in 2^52, save near zero, and every whole number of 64 bits is rounded to a finite one that is
whole.
-/

set_option autoImplicit false

namespace CourseQuery

/-! ## Codes and units -/

/-- A binade holds 2 to the 52 numbers. -/
theorem binade_eq : binade = 2 ^ 52 := by decide

/-- A code lies in the lowest binade or at some place in a higher one. -/
theorem code_cases (c : Nat) : c < binade ∨ ∃ q r, r < binade ∧ c = (q + 1) * binade + r := by
  have hpos : 0 < binade := by decide
  by_cases h : c < binade
  · exact Or.inl h
  · refine Or.inr ⟨c / binade - 1, c % binade, Nat.mod_lt c hpos, ?_⟩
    have hq : 1 ≤ c / binade := (Nat.one_le_div_iff hpos).2 (Nat.le_of_not_lt h)
    rw [Nat.sub_add_cancel hq, Nat.mul_comm]
    exact (Nat.div_add_mod c binade).symm

/-- The number 1 has units. -/
theorem unitsOfOne_pos : 0 < unitsOfOne := by decide +kernel

/-- In the first binade a code is its number of units. -/
theorem unitsOfCode_of_lt {c : Nat} (h : c < binade) : unitsOfCode c = c :=
  if_pos h

/-- In the higher binades the units of neighbours lie a power of two apart. -/
theorem unitsOfCode_add (q : Nat) {r : Nat} (hr : r < binade) :
    unitsOfCode ((q + 1) * binade + r) = (binade + r) * 2 ^ q := by
  have hpos : 0 < binade := by decide
  have hdiv : ((q + 1) * binade + r) / binade = q + 1 := by
    rw [Nat.mul_comm, Nat.mul_add_div hpos, Nat.div_eq_of_lt hr, Nat.add_zero]
  have hmod : ((q + 1) * binade + r) % binade = r := by
    rw [Nat.mul_comm, Nat.mul_add_mod, Nat.mod_eq_of_lt hr]
  have hnot : ¬ (q + 1) * binade + r < binade := by
    have : binade ≤ (q + 1) * binade := Nat.le_mul_of_pos_left _ (Nat.succ_pos q)
    omega
  rw [unitsOfCode, if_neg hnot, hdiv, hmod, Nat.add_sub_cancel, Nat.shiftLeft_eq]

/-- Within a binade the units grow by the same step from code to code. -/
theorem unitsOfCode_add_succ (q : Nat) {r : Nat} (hr : r < binade) :
    unitsOfCode ((q + 1) * binade + r + 1) = (binade + r + 1) * 2 ^ q := by
  by_cases hnext : r + 1 < binade
  · rw [Nat.add_assoc, unitsOfCode_add q hnext, Nat.add_assoc]
  · have hc : (q + 1) * binade + r + 1 = (q + 1 + 1) * binade + 0 := by
      rw [Nat.succ_mul (q + 1)]
      omega
    have hr' : binade + r + 1 = (binade + 0) * 2 := by omega
    rw [hc, unitsOfCode_add (q + 1) (by decide), hr', Nat.pow_succ, Nat.mul_assoc,
      Nat.mul_comm 2]

/-- The next code has more units. -/
theorem unitsOfCode_lt_succ (c : Nat) : unitsOfCode c < unitsOfCode (c + 1) := by
  rcases code_cases c with h | ⟨q, r, hr, rfl⟩
  · rw [unitsOfCode_of_lt h]
    by_cases hnext : c + 1 < binade
    · rw [unitsOfCode_of_lt hnext]
      exact Nat.lt_succ_self c
    · have hc : c + 1 = (0 + 1) * binade + 0 := by omega
      rw [hc, unitsOfCode_add 0 (by decide)]
      omega
  · rw [unitsOfCode_add q hr, unitsOfCode_add_succ q hr]
    exact Nat.mul_lt_mul_of_pos_right (Nat.lt_succ_self _) (Nat.two_pow_pos q)

/-- A greater code has more units. -/
theorem unitsOfCode_strictMono : StrictMono unitsOfCode :=
  strictMono_nat_of_lt_succ unitsOfCode_lt_succ

/-- From the lowest binade upwards a gap between neighbours is at most one part in 2^52. -/
theorem unitsOfCode_succ_mul_le {c : Nat} (h : binade ≤ c) :
    unitsOfCode (c + 1) * binade ≤ unitsOfCode c * (binade + 1) := by
  rcases code_cases c with hlow | ⟨q, r, hr, rfl⟩
  · omega
  · rw [unitsOfCode_add q hr, unitsOfCode_add_succ q hr, Nat.mul_right_comm,
      Nat.mul_right_comm (binade + r)]
    apply Nat.mul_le_mul_right
    rw [Nat.add_mul (binade + r), Nat.mul_add (binade + r)]
    omega

/-! ## The code below -/

/-- Units lie between those of their code and those of the next one. -/
theorem units_floorCode (u : Nat) :
    unitsOfCode (floorCode u) ≤ u ∧ u < unitsOfCode (floorCode u + 1) := by
  by_cases hsmall : u < 2 * binade
  · rw [floorCode, if_pos hsmall]
    rcases code_cases u with hlow | ⟨q, r, hr, hu⟩
    · rw [unitsOfCode_of_lt hlow]
      refine ⟨Nat.le_refl u, ?_⟩
      have hnext := unitsOfCode_lt_succ u
      rw [unitsOfCode_of_lt hlow] at hnext
      exact hnext
    · obtain rfl : q = 0 := by
        by_contra hq
        have : 2 * binade ≤ (q + 1) * binade := Nat.mul_le_mul_right _ (by omega)
        omega
      rw [hu, unitsOfCode_add 0 hr, unitsOfCode_add_succ 0 hr]
      omega
  · -- the digits in front are those of a number with 53 binary digits
    have hne : u ≠ 0 := by
      have : 0 < binade := by decide
      omega
    have hlog : 53 ≤ u.log2 := by
      rw [Nat.le_log2 hne, show (2 : Nat) ^ 53 = 2 * binade by decide]
      omega
    obtain ⟨k, hk⟩ : ∃ k, u.log2 = 52 + k := ⟨u.log2 - 52, by omega⟩
    have htwo : 0 < 2 ^ k := Nat.two_pow_pos k
    have hlow : binade ≤ u / 2 ^ k := by
      rw [Nat.le_div_iff_mul_le htwo, binade_eq, ← Nat.pow_add, ← hk]
      exact Nat.log2_self_le hne
    have hhigh : u / 2 ^ k < 2 * binade := by
      rw [Nat.div_lt_iff_lt_mul htwo, show 2 * binade = 2 ^ 53 by decide, ← Nat.pow_add,
        show 53 + k = u.log2 + 1 by omega]
      exact Nat.lt_log2_self
    have hfloor : floorCode u = (k + 1) * binade + (u / 2 ^ k - binade) := by
      rw [floorCode, if_neg hsmall, hk, Nat.add_sub_cancel_left, Nat.shiftRight_eq_div_pow,
        Nat.succ_mul]
      omega
    have hplace : u / 2 ^ k - binade < binade := by omega
    rw [hfloor, unitsOfCode_add k hplace, unitsOfCode_add_succ k hplace,
      Nat.add_sub_cancel' hlow]
    exact ⟨Nat.div_mul_le_self u _, by
      rw [Nat.succ_mul]
      exact Nat.lt_div_mul_add htwo⟩

/-- A code is at most the one below some units exactly when its units are at most these. -/
theorem le_floorCode_iff {c u : Nat} : c ≤ floorCode u ↔ unitsOfCode c ≤ u := by
  obtain ⟨hlow, hhigh⟩ := units_floorCode u
  constructor
  · intro h
    exact Nat.le_trans (unitsOfCode_strictMono.monotone h) hlow
  · intro h
    have hlt := unitsOfCode_strictMono.lt_iff_lt.1 (Nat.lt_of_le_of_lt h hhigh)
    exact Nat.le_of_lt_succ hlt

/-- The greatest code at most as great as the units of a code is this code. -/
theorem floorCode_unitsOfCode (c : Nat) : floorCode (unitsOfCode c) = c := by
  apply Nat.le_antisymm
  · exact unitsOfCode_strictMono.le_iff_le.1 (units_floorCode _).1
  · exact le_floorCode_iff.2 (Nat.le_refl _)

/-! ## The nearest code -/

/-- The nearest code is the one below or the next one. -/
theorem roundCode_bounds (num den : Nat) :
    floorCode (num / den) ≤ roundCode num den ∧
      roundCode num den ≤ floorCode (num / den) + 1 := by
  have hparity := Nat.mod_lt (floorCode (num / den)) (show 0 < 2 by decide)
  unfold roundCode
  dsimp only
  split
  · omega
  · split
    · omega
    · omega

/-- A fraction that is exactly the units of a code is rounded to the code. -/
theorem roundCode_exact (c : Nat) {den : Nat} (hden : 0 < den) :
    roundCode (unitsOfCode c * den) den = c := by
  have hmiddle : 2 * (unitsOfCode c * den) < den * (unitsOfCode c + unitsOfCode (c + 1)) := by
    have := Nat.mul_lt_mul_of_pos_left (unitsOfCode_lt_succ c) hden
    rw [Nat.mul_add, Nat.mul_comm (unitsOfCode c)]
    omega
  rw [roundCode, Nat.mul_div_cancel _ hden, floorCode_unitsOfCode]
  exact if_pos hmiddle

/-- What is at most the units of a code is rounded to a code that is not greater. -/
theorem roundCode_le {num den c : Nat} (hden : 0 < den) (h : num ≤ unitsOfCode c * den) :
    roundCode num den ≤ c := by
  have hdiv : num / den ≤ unitsOfCode c := Nat.div_le_of_le_mul (by rwa [Nat.mul_comm])
  have hfloor : floorCode (num / den) ≤ c := by
    rw [← floorCode_unitsOfCode c, le_floorCode_iff]
    exact Nat.le_trans (units_floorCode _).1 hdiv
  rcases Nat.lt_or_eq_of_le hfloor with hlt | heq
  · exact Nat.le_trans (roundCode_bounds num den).2 hlt
  · have hle := le_floorCode_iff.1 (Nat.le_of_eq heq.symm)
    rw [Nat.le_div_iff_mul_le hden] at hle
    rw [Nat.le_antisymm h hle, roundCode_exact c hden]

/-- What is at least the units of a code is rounded to a code that is not smaller. -/
theorem le_roundCode {num den c : Nat} (hden : 0 < den) (h : unitsOfCode c * den ≤ num) :
    c ≤ roundCode num den := by
  refine Nat.le_trans (le_floorCode_iff.2 ?_) (roundCode_bounds num den).1
  exact (Nat.le_div_iff_mul_le hden).2 h

/-- What is rounded lies below the units of the code after the nearest one. -/
theorem lt_unitsOfCode_succ_roundCode {num den : Nat} (hden : 0 < den) :
    num < unitsOfCode (roundCode num den + 1) * den := by
  rw [← Nat.div_lt_iff_lt_mul hden]
  refine Nat.lt_of_lt_of_le (units_floorCode _).2 (unitsOfCode_strictMono.monotone ?_)
  exact Nat.succ_le_succ (roundCode_bounds num den).1

/-- From the lowest binade upwards rounding adds at most one part in 2^52. -/
theorem unitsOfCode_roundCode_mul_le {num den : Nat} (hden : 0 < den)
    (h : unitsOfCode binade * den ≤ num) :
    unitsOfCode (roundCode num den) * den * binade ≤ num * (binade + 1) := by
  have hlow : binade ≤ floorCode (num / den) :=
    le_floorCode_iff.2 ((Nat.le_div_iff_mul_le hden).2 h)
  calc unitsOfCode (roundCode num den) * den * binade
      ≤ unitsOfCode (floorCode (num / den) + 1) * den * binade := by
        apply Nat.mul_le_mul_right
        apply Nat.mul_le_mul_right
        exact unitsOfCode_strictMono.monotone (roundCode_bounds num den).2
    _ = unitsOfCode (floorCode (num / den) + 1) * binade * den := Nat.mul_right_comm ..
    _ ≤ unitsOfCode (floorCode (num / den)) * (binade + 1) * den :=
        Nat.mul_le_mul_right _ (unitsOfCode_succ_mul_le hlow)
    _ = unitsOfCode (floorCode (num / den)) * den * (binade + 1) := Nat.mul_right_comm ..
    _ ≤ num * (binade + 1) := by
        apply Nat.mul_le_mul_right
        exact (Nat.le_div_iff_mul_le hden).1 (units_floorCode _).1

/-! ## Whole numbers -/

/-- A whole number below 2^52 is exactly the units of a code. -/
theorem exists_unitsOfCode_whole {k : Nat} (hk : unitsOfOne = 1 <<< (k + 52)) {n : Nat}
    (h : n < binade) : ∃ c, unitsOfCode c = n * unitsOfOne := by
  by_cases hn : n = 0
  · exact ⟨0, by rw [hn, Nat.zero_mul]; rfl⟩
  have hlow := Nat.log2_self_le hn
  have hhigh := Nat.lt_log2_self (n := n)
  have hlog : n.log2 < 52 := (Nat.log2_lt hn).2 (binade_eq ▸ h)
  obtain ⟨j, hj⟩ : ∃ j, n.log2 + j = 52 := ⟨52 - n.log2, by omega⟩
  have hbinade : binade = 2 ^ n.log2 * 2 ^ j := by rw [binade_eq, ← Nat.pow_add, hj]
  have hpos : 0 < 2 ^ j := Nat.pow_pos (by decide)
  have hle : binade ≤ n * 2 ^ j := hbinade ▸ Nat.mul_le_mul_right _ hlow
  have hlt : n * 2 ^ j < 2 * binade := by
    rw [hbinade, ← Nat.mul_assoc, ← Nat.pow_succ']
    exact Nat.mul_lt_mul_of_pos_right hhigh hpos
  refine ⟨(k + n.log2 + 1) * binade + (n * 2 ^ j - binade), ?_⟩
  have hpow : j + (k + n.log2) = k + 52 := by omega
  rw [unitsOfCode_add _ (by omega), Nat.add_sub_cancel' hle, hk, Nat.one_shiftLeft,
    Nat.mul_assoc, ← Nat.pow_add, hpow]

/-- From 2^52 upwards every code has whole units. -/
theorem unitsOfOne_dvd_of_le {k : Nat} (hk : unitsOfOne = 1 <<< (k + 52)) {c : Nat}
    (h : (k + 53) * binade ≤ c) : unitsOfOne ∣ unitsOfCode c := by
  rcases code_cases c with hc | ⟨q, r, hr, rfl⟩
  · have hlow : binade ≤ (k + 53) * binade := Nat.le_mul_of_pos_left _ (Nat.succ_pos (k + 52))
    omega
  · have hq : k + 52 ≤ q := by
      by_contra hq
      have hnext := Nat.mul_le_mul_right binade (show q + 1 + 1 ≤ k + 53 by omega)
      rw [Nat.succ_mul] at hnext
      omega
    rw [unitsOfCode_add q hr, hk, Nat.one_shiftLeft]
    exact Nat.dvd_mul_left_of_dvd (Nat.pow_dvd_pow 2 hq) _

namespace Magnitude

/-- What is below the greatest finite magnitude is not rounded to infinity. -/
theorem ofUnits_isFinite {num den : Nat} (h : num / den < unitsOfCode (infinityCode - 1)) :
    (ofUnits num den).isFinite = true := by
  have hfloor : floorCode (num / den) < infinityCode - 1 := by
    by_contra hlarge
    have := le_floorCode_iff.1 (Nat.le_of_not_lt hlarge)
    omega
  have hround := (roundCode_bounds num den).2
  refine decide_eq_true (Nat.lt_of_le_of_lt (Nat.min_le_left _ _) ?_)
  omega

/-- A finite magnitude is rounded to itself. -/
theorem ofUnits_units_mul {m : Magnitude} (hm : m.isFinite = true) {den : Nat} (hden : 0 < den) :
    ofUnits (m.units * den) den = m := by
  obtain ⟨c, hc⟩ := m
  have hlt : c < infinityCode := of_decide_eq_true hm
  simp only [ofUnits, units, roundCode_exact c hden, Nat.min_eq_left (Nat.le_of_lt hlt)]

/-- A decimal without an exponent is rounded as the whole number that it is. -/
theorem ofDecimal_whole (n : Nat) : ofDecimal n 0 = ofUnits (n * unitsOfOne) 1 := by
  unfold ofDecimal
  by_cases hn : n = 0
  · subst hn
    rw [if_pos rfl, Nat.zero_mul]
    decide
  · rw [if_neg hn, if_neg (by decide), if_neg (by omega), if_pos (Int.le_refl 0)]
    simp [powerOfTen]

/-- Every whole number of 64 bits has a finite magnitude. -/
theorem ofDecimal_whole_isFinite {n : Nat} (h : n < UInt64.size) :
    (ofDecimal n 0).isFinite = true := by
  have hlimit : UInt64.size * unitsOfOne < unitsOfCode (infinityCode - 1) := by decide +kernel
  rw [ofDecimal_whole]
  apply ofUnits_isFinite
  rw [Nat.div_one]
  exact Nat.lt_trans (Nat.mul_lt_mul_of_pos_right h unitsOfOne_pos) hlimit

/-- Scaling by nothing changes nothing. -/
theorem scale_zero {m : Magnitude} (hm : m.isFinite = true) : m.scale 0 = m := by
  have hone : (tenTo 0).units = unitsOfOne := by
    decide +kernel
  rw [scale, if_pos (Int.le_refl 0), scaleUp, if_pos (by decide), mul]
  rw [show (0 : Int).toNat = 0 from rfl, hone]
  exact ofUnits_units_mul hm unitsOfOne_pos

/-- The magnitude that is a whole number is the one nearest to it. -/
theorem ofDecimal_of_toNat? {m : Magnitude} {n : Nat} (h : m.toNat? = some n) :
    ofDecimal n 0 = m := by
  unfold toNat? at h
  split at h
  · rename_i hcond
    simp only [Bool.and_eq_true, beq_iff_eq] at hcond
    obtain ⟨hfinite, hmod⟩ := hcond
    have hunits : n * unitsOfOne = m.units * 1 := by
      rw [← Option.some.inj h, Nat.mul_one]
      exact Nat.div_mul_cancel (Nat.dvd_of_mod_eq_zero hmod)
    rw [ofDecimal_whole, hunits]
    exact ofUnits_units_mul hfinite Nat.one_pos
  · contradiction

/-- The magnitude nearest to a whole number of 64 bits is a whole number. -/
theorem exists_toNat?_ofDecimal {n : Nat} (h : n < UInt64.size) :
    ∃ k, (ofDecimal n 0).toNat? = some k := by
  have hfinite := ofDecimal_whole_isFinite h
  have hk : unitsOfOne = 1 <<< (1022 + 52) := rfl
  have hcode : (ofDecimal n 0).code = roundCode (n * unitsOfOne) 1 := by
    rw [ofDecimal_whole, ofUnits] at hfinite ⊢
    have := of_decide_eq_true hfinite
    dsimp only at this ⊢
    omega
  have hdvd : unitsOfOne ∣ (ofDecimal n 0).units := by
    rw [units, hcode]
    by_cases hn : n < binade
    · obtain ⟨c, hc⟩ := exists_unitsOfCode_whole hk hn
      rw [← hc, ← Nat.mul_one (unitsOfCode c), roundCode_exact c Nat.one_pos, hc]
      exact Nat.dvd_mul_left _ _
    · apply unitsOfOne_dvd_of_le hk
      apply le_roundCode Nat.one_pos
      have hcode : unitsOfCode ((1022 + 53) * binade) = binade * unitsOfOne := by decide +kernel
      rw [hcode, Nat.mul_one]
      exact Nat.mul_le_mul_right _ (Nat.le_of_not_lt hn)
  refine ⟨(ofDecimal n 0).units / unitsOfOne, ?_⟩
  rw [toNat?, if_pos]
  rw [hfinite, Nat.mod_eq_zero_of_dvd hdvd]
  rfl

end Magnitude

end CourseQuery
