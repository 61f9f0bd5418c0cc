import CourseQuery.Proofs.Json.ReadsBack

/-!
# Values on one line

The compact form of a value is one line: a string escapes the control characters below the space,
and nothing else that is written has one. So a text can be cut at the ends of its lines into the
values that were written there, whatever strings are in them.
-/

set_option autoImplicit false

namespace CourseQuery.Json

/-- Nothing in a text is a control character below the space. -/
def NoControl (s : List Char) : Prop :=
  ∀ c ∈ s, 0x20 ≤ c.toNat

/-- Texts without control characters are joined to one. -/
theorem noControl_append {s t : List Char} (hs : NoControl s) (ht : NoControl t) :
    NoControl (s ++ t) :=
  fun c hc => (List.mem_append.1 hc).elim (hs c) (ht c)

/-- A character that is no control character can be put in front. -/
theorem noControl_cons {c : Char} {s : List Char} (hc : 0x20 ≤ c.toNat) (hs : NoControl s) :
    NoControl (c :: s) :=
  List.forall_mem_cons.2 ⟨hc, hs⟩

/-- A single character that is no control character is a text without one. -/
theorem noControl_singleton {c : Char} (hc : 0x20 ≤ c.toNat) : NoControl [c] :=
  noControl_cons hc nofun

/-- A text is without control characters if each of its characters is none. -/
theorem noControl_of_all {s : List Char} (h : s.all (fun c => 0x20 ≤ c.toNat) = true) :
    NoControl s :=
  fun c hc => of_decide_eq_true (List.all_eq_true.1 h c hc)

/-- Digits are no control characters. -/
theorem noControl_digits {s : List Char} (h : ∀ c ∈ s, c.isDigit = true) : NoControl s := by
  intro c hc
  have hdigit := h c hc
  simp only [Char.isDigit, Bool.and_eq_true, decide_eq_true_eq] at hdigit
  have hlow : (48 : UInt32) ≤ c.val := hdigit.1
  have hnat : 48 ≤ c.val.toNat := hlow
  exact Nat.le_trans (by decide) hnat

/-! ## Strings -/

/-- The escape of a character holds no control character. -/
theorem noControl_escapeChar (c : Char) : NoControl (escapeChar c) := by
  have hnibble : ∀ n, 0x20 ≤ (hexDigit (n % 16)).toNat := fun n =>
    have hdigit : ∀ d < 16, 0x20 ≤ (hexDigit d).toNat := by decide
    hdigit _ (Nat.mod_lt _ (by decide))
  unfold escapeChar
  iterate 7
    split
    · exact noControl_cons (by decide) (noControl_singleton (by decide))
  split
  · rw [unicodeEscape]
    exact noControl_cons (by decide) (noControl_cons (by decide) (noControl_cons (hnibble _)
      (noControl_cons (hnibble _) (noControl_cons (hnibble _) (noControl_singleton (hnibble _))))))
  · rename_i hhigh
    exact noControl_singleton (Nat.le_of_not_lt hhigh)

/-- A quoted text holds no control character, whatever the text holds. -/
theorem noControl_quoted (s : String) : NoControl (quoted s) := by
  refine noControl_append (noControl_cons (by decide) fun c hc => ?_)
    (noControl_singleton (by decide))
  obtain ⟨d, -, hd⟩ := List.mem_flatMap.1 hc
  exact noControl_escapeChar d c hd

/-! ## Numbers -/

/-- A sign is no control character. -/
theorem noControl_sign (negative : Bool) : NoControl (Numeral.sign negative) := by
  cases negative with
  | true => exact noControl_singleton (by decide)
  | false => exact nofun

/-- The numeral of an integer holds no control character. -/
theorem noControl_integer (i : Int) : NoControl (toString i).toList := by
  rw [Numeral.toList_toString_int]
  exact noControl_append (noControl_sign _) (noControl_digits (Numeral.digits_toDigits _).2)

/-- The numeral of a real number holds no control character. -/
theorem noControl_partsChars {negative : Bool} {whole fraction : List Char} {exponent : Option Int}
    (h : RealParts negative whole fraction exponent) :
    NoControl (partsChars negative whole fraction exponent) := by
  refine noControl_append (noControl_sign negative) (noControl_append (noControl_digits h.digits.2)
    (noControl_append ?_ ?_))
  · split
    · exact nofun
    · exact noControl_cons (by decide) (noControl_digits h.fractionDigits)
  · cases exponent with
    | none => exact nofun
    | some i => exact noControl_cons (by decide) (noControl_integer i)

/-- The text of a real number holds no control character. -/
theorem noControl_real (x : Binary64) : NoControl (chars (real x)) := by
  cases hfinite : x.isFinite with
  | false =>
    rw [chars_real_of_not_finite hfinite]
    exact noControl_of_all rfl
  | true =>
    cases x with
    | nan => contradiction
    | signed negative m =>
      obtain ⟨whole, fraction, exponent, hparts, hchars, -⟩ := exists_chars_real hfinite
      rw [hchars]
      exact noControl_partsChars hparts

/-! ## Values -/

mutual

/-- The compact form of a value is one line. -/
theorem noControl_chars : ∀ v : Json, NoControl (chars v)
  | null => noControl_of_all rfl
  | bool true => noControl_of_all rfl
  | bool false => noControl_of_all rfl
  | integer i => noControl_integer i
  | real x => noControl_real x
  | string s => noControl_quoted s
  | array vs => noControl_append (noControl_cons (by decide) (noControl_charsOfList vs))
      (noControl_singleton (by decide))
  | object ms => noControl_append (noControl_cons (by decide) (noControl_charsOfMembers ms))
      (noControl_singleton (by decide))

/-- The text of elements holds no control character. -/
theorem noControl_charsOfList : ∀ vs : List Json, NoControl (charsOfList vs)
  | [] => nofun
  | [v] => noControl_chars v
  | v :: w :: vs => noControl_append (noControl_chars v)
      (noControl_cons (by decide) (noControl_charsOfList (w :: vs)))

/-- The text of members holds no control character. -/
theorem noControl_charsOfMembers : ∀ ms : List (String × Json), NoControl (charsOfMembers ms)
  | [] => nofun
  | [(name, v)] =>
    noControl_append (noControl_quoted name) (noControl_cons (by decide) (noControl_chars v))
  | (name, v) :: m :: ms => noControl_append
      (noControl_append (noControl_quoted name) (noControl_cons (by decide) (noControl_chars v)))
      (noControl_cons (by decide) (noControl_charsOfMembers (m :: ms)))

end

end CourseQuery.Json
