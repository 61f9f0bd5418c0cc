import CourseQuery.Number.Numeral
import Mathlib.Data.List.TakeWhile

/-!
# Plain numerals

`Plain` is the grammar of the numbers that a sentence may hold, `-?digits[.digits]`, each with the
number nearest to what it denotes. `ofPlain?_eq_some_iff` says that the reader follows it.
-/

set_option autoImplicit false

namespace CourseQuery.Numeral

/-- One or more decimal digits. -/
def Digits (s : List Char) : Prop :=
  s ≠ [] ∧ ∀ c ∈ s, c.isDigit = true

/-- The sign before a numeral. -/
def sign (negative : Bool) : List Char :=
  if negative then ['-'] else []

/-- A numeral of the form `-?digits[.digits]` and the number nearest to what it denotes. -/
inductive Plain : List Char → Binary64 → Prop
  | whole (negative : Bool) {digits : List Char} :
      Digits digits → Plain (sign negative ++ digits) (value ⟨negative, digits, [], 0⟩)
  | point (negative : Bool) {digits fraction : List Char} :
      Digits digits → Digits fraction →
      Plain (sign negative ++ (digits ++ '.' :: fraction)) (value ⟨negative, digits, fraction, 0⟩)

/-- Whether there are digits alone is tested as it is meant. -/
theorem allDigits_iff {s : List Char} : allDigits s = true ↔ Digits s := by
  simp [allDigits, Digits]

/-- A digit differs from everything that is none. -/
theorem ne_of_isDigit {c d : Char} (hd : d.isDigit = false) (hc : c.isDigit = true) : c ≠ d := by
  rintro rfl
  rw [hc] at hd
  contradiction

/-- A text is cut at the first character that is asked for. -/
theorem cutAt_append {p : Char → Bool} {front rest : List Char} (hfront : ∀ c ∈ front, p c = false)
    (hrest : ∀ c ∈ rest.head?, p c = true) : cutAt p (front ++ rest) = (front, rest) := by
  have hnot : ∀ c ∈ front, (!p c) = true := fun c hc => by simp [hfront c hc]
  rw [cutAt, List.takeWhile_append_of_pos hnot, List.dropWhile_append_of_pos hnot]
  cases rest with
  | nil => simp
  | cons c rest =>
    have hc : p c = true := hrest c rfl
    simp [hc]

/-- The two parts of a cut are the whole, and the second begins with a character of the kind. -/
theorem append_of_cutAt {p : Char → Bool} {s front rest : List Char}
    (h : cutAt p s = (front, rest)) :
    s = front ++ rest ∧ ∀ c ∈ rest.head?, p c = true := by
  obtain ⟨rfl, rfl⟩ := Prod.mk.inj h
  refine ⟨List.takeWhile_append_dropWhile.symm, fun c hc => ?_⟩
  have := List.head?_dropWhile_not (!p ·) s
  rw [Option.mem_def.1 hc] at this
  simpa using this

/-- Without a minus sign there is none to take. -/
theorem takeMinus_of_ne {s : List Char} (h : s.head? ≠ some '-') : takeMinus s = (false, s) := by
  cases s with
  | nil => rfl
  | cons c s =>
    have hc : c ≠ '-' := fun hc => h (congrArg some hc)
    simp [takeMinus, hc]

/-- The sign that is written is taken. -/
theorem takeMinus_sign {negative : Bool} {s : List Char} (h : s.head? ≠ some '-') :
    takeMinus (sign negative ++ s) = (negative, s) := by
  cases negative with
  | true => rfl
  | false => exact takeMinus_of_ne h

/-- What a sign was taken from is the sign and what is left. -/
theorem eq_sign_append {s body : List Char} {negative : Bool} (h : takeMinus s = (negative, body)) :
    s = sign negative ++ body := by
  unfold takeMinus at h
  split at h <;> obtain ⟨rfl, rfl⟩ := Prod.mk.inj h <;> rfl

/-- A numeral that is read is one of the grammar. -/
theorem plain_of_plain? {w : List Char} {n : Numeral} (h : plain? w = some n) :
    Plain w n.value := by
  cases hminus : takeMinus w with
  | mk negative body =>
    cases hcut : cutAt (· == '.') body with
    | mk whole tail =>
      simp only [plain?, hminus, hcut] at h
      obtain ⟨rfl, hpoint⟩ := append_of_cutAt hcut
      rw [eq_sign_append hminus]
      cases tail with
      | nil =>
        obtain ⟨hdigits, hn⟩ := Option.ite_none_right_eq_some.1 h
        rw [List.append_nil, ← Option.some.inj hn]
        exact .whole negative (allDigits_iff.1 hdigits)
      | cons c fraction =>
        obtain ⟨hdigits, hn⟩ := Option.ite_none_right_eq_some.1 h
        obtain ⟨hwhole, hfraction⟩ := Bool.and_eq_true_iff.1 hdigits
        obtain rfl : c = '.' := by simpa using hpoint
        rw [← Option.some.inj hn]
        exact .point negative (allDigits_iff.1 hwhole) (allDigits_iff.1 hfraction)

/-- Digits are taken up to a point, and no digit is taken for a sign. -/
theorem takeMinus_cutAt_digits (negative : Bool) {digits : List Char} (rest : List Char)
    (hdigits : Digits digits)
    (hrest : ∀ c ∈ rest.head?, c = '.') :
    takeMinus (sign negative ++ (digits ++ rest)) = (negative, digits ++ rest) ∧
      cutAt (· == '.') (digits ++ rest) = (digits, rest) := by
  obtain ⟨hne, hdigits⟩ := hdigits
  refine ⟨takeMinus_sign ?_, cutAt_append (fun c hc => ?_) fun c hc => ?_⟩
  · cases digits with
    | nil => contradiction
    | cons c digits =>
      intro h
      exact ne_of_isDigit (by decide) (hdigits c List.mem_cons_self) (Option.some.inj h)
  · simpa using ne_of_isDigit (d := '.') (by decide) (hdigits c hc)
  · simpa using hrest c hc

/-- A word is read as a number exactly when it is a numeral of the grammar. -/
theorem ofPlain?_eq_some_iff {w : List Char} {x : Binary64} :
    Binary64.ofPlain? (String.ofList w) = some x ↔ Plain w x := by
  rw [Binary64.ofPlain?, String.toList_ofList, Option.map_eq_some_iff]
  constructor
  · rintro ⟨n, h, rfl⟩
    exact plain_of_plain? h
  · intro h
    cases h with
    | @whole negative digits hdigits =>
      obtain ⟨hminus, hcut⟩ :=
        takeMinus_cutAt_digits negative [] hdigits (by simp)
      rw [List.append_nil] at hminus hcut
      exact ⟨_, by simp [plain?, hminus, hcut, allDigits_iff.2 hdigits], rfl⟩
    | @point negative digits fraction hdigits hfraction =>
      obtain ⟨hminus, hcut⟩ :=
        takeMinus_cutAt_digits negative ('.' :: fraction) hdigits (by simp)
      exact ⟨_, by simp [plain?, hminus, hcut, allDigits_iff.2 hdigits, allDigits_iff.2 hfraction],
        rfl⟩

/-- A plain numeral is made of digits, a point and a minus sign. -/
theorem Plain.mem {w : List Char} {x : Binary64} (h : Plain w x) :
    ∀ c ∈ w, c = '-' ∨ c = '.' ∨ c.isDigit = true := by
  have hsign : ∀ negative, ∀ c ∈ sign negative, c = '-' := by
    intro negative
    cases negative <;> simp [sign]
  cases h with
  | whole negative hdigits =>
    intro c hc
    rcases List.mem_append.1 hc with hc | hc
    · exact .inl (hsign negative c hc)
    · exact .inr (.inr (hdigits.2 c hc))
  | point negative hdigits hfraction =>
    intro c hc
    simp only [List.mem_append, List.mem_cons] at hc
    rcases hc with hc | hc | rfl | hc
    · exact .inl (hsign negative c hc)
    · exact .inr (.inr (hdigits.2 c hc))
    · exact .inr (.inl rfl)
    · exact .inr (.inr (hfraction.2 c hc))

/-- A plain numeral is not empty. -/
theorem Plain.ne_nil {w : List Char} {x : Binary64} (h : Plain w x) : w ≠ [] := by
  cases h with
  | whole negative hdigits => simp [hdigits.1]
  | point negative hdigits hfraction => simp

end CourseQuery.Numeral
