import CourseQuery.Proofs.Json.Tokens

/-!
# The numbers of a document

A numeral always denotes a number: it may be rounded and it may be infinite, but it is never a NaN.
So no document holds one, however its values are nested and whether it is read strictly or skimmed.
-/

set_option autoImplicit false

namespace CourseQuery

/-- No number of a value is a NaN. -/
inductive Json.NoNan : Json → Prop
  | null : NoNan null
  | bool (b : Bool) : NoNan (bool b)
  | integer (i : Int) : NoNan (integer i)
  | real {x : Binary64} (h : x ≠ .nan) : NoNan (real x)
  | string (s : String) : NoNan (string s)
  | array {vs : List Json} (h : ∀ v ∈ vs, NoNan v) : NoNan (array vs)
  | object {ms : List (String × Json)} (h : ∀ m ∈ ms, NoNan m.2) : NoNan (object ms)

/-- A value without NaN is not the number NaN. -/
theorem Json.NoNan.number? {v : Json} (h : v.NoNan) : v.number? ≠ some .nan := by
  cases h with
  | real hx =>
    intro hnan
    exact hx (Option.some.inj hnan)
  | integer i =>
    intro hnan
    exact nomatch Option.some.inj hnan
  | null => exact nofun
  | bool b => exact nofun
  | string s => exact nofun
  | array h => exact nofun
  | object h => exact nofun

namespace Json

variable {skim : Bool} {s rest : List Char} {v : Json}

/-- No number that is read is NaN. -/
theorem noNan_of_number (h : number skim s = some (v, rest)) : v.NoNan := by
  obtain ⟨negative, whole, fraction, exponent, -, rfl⟩ := number_eq_some_iff.1 h
  unfold ofParts
  dsimp only
  generalize (if negative = true then -(Numeral.digitsValue whole : Int) else _) = i
  split
  · exact .integer i
  · apply NoNan.real
    unfold Numeral.scaledValue
    exact nofun

/-- What the reader calls at one depth of fuel holds no NaN: a value, the elements of an array and
the members of an object. -/
def ReadsNoNan (fuel : Nat) : Prop :=
  (∀ skim s v rest, value skim fuel s = some (v, rest) → v.NoNan) ∧
  (∀ skim s vs rest, elements skim fuel s = some (vs, rest) → ∀ v ∈ vs, v.NoNan) ∧
  ∀ skim skimValue s ms rest,
    members skim skimValue fuel s = some (ms, rest) → ∀ m ∈ ms, m.2.NoNan

section Step

variable {fuel : Nat} (ih : ReadsNoNan fuel)

include ih

/-- One more step of fuel reads a value without NaN. -/
theorem noNan_of_value_succ (h : value skim (fuel + 1) s = some (v, rest)) : v.NoNan := by
  obtain ⟨-, helements, hmembers⟩ := ih
  rw [value] at h
  split at h
  · obtain ⟨rfl, -⟩ := Prod.mk.inj (Option.some.inj h)
    exact .null
  · obtain ⟨rfl, -⟩ := Prod.mk.inj (Option.some.inj h)
    exact .bool _
  · obtain ⟨rfl, -⟩ := Prod.mk.inj (Option.some.inj h)
    exact .bool _
  · obtain ⟨⟨text, _⟩, -, h⟩ := Option.map_eq_some_iff.1 h
    obtain ⟨rfl, -⟩ := Prod.mk.inj h
    exact .string text
  · split at h
    · obtain ⟨rfl, -⟩ := Prod.mk.inj (Option.some.inj h)
      exact .array nofun
    · obtain ⟨⟨vs, _⟩, hvs, h⟩ := Option.map_eq_some_iff.1 h
      obtain ⟨rfl, -⟩ := Prod.mk.inj h
      exact .array (helements _ _ _ _ hvs)
  · split at h
    · obtain ⟨rfl, -⟩ := Prod.mk.inj (Option.some.inj h)
      exact .object nofun
    · obtain ⟨⟨ms, _⟩, hms, h⟩ := Option.map_eq_some_iff.1 h
      obtain ⟨rfl, -⟩ := Prod.mk.inj h
      exact .object (hmembers _ _ _ _ _ hms)
  · exact noNan_of_number h

/-- One more step of fuel reads elements without NaN. -/
theorem noNan_of_elements_succ {vs : List Json}
    (h : elements skim (fuel + 1) s = some (vs, rest)) : ∀ v ∈ vs, v.NoNan := by
  obtain ⟨hvalue, helements, -⟩ := ih
  rw [elements] at h
  split at h
  · contradiction
  · rename_i first afterFirst hfirst
    have hhead := hvalue _ _ _ _ hfirst
    split at h
    · obtain ⟨⟨others, _⟩, hothers, h⟩ := Option.map_eq_some_iff.1 h
      obtain ⟨rfl, -⟩ := Prod.mk.inj h
      exact List.forall_mem_cons.2 ⟨hhead, helements _ _ _ _ hothers⟩
    · obtain ⟨rfl, -⟩ := Prod.mk.inj (Option.some.inj h)
      exact List.forall_mem_singleton.2 hhead
    · contradiction

/-- One more step of fuel reads members without NaN. -/
theorem noNan_of_members_succ {skimValue : String → Bool} {ms : List (String × Json)}
    (h : members skim skimValue (fuel + 1) s = some (ms, rest)) : ∀ m ∈ ms, m.2.NoNan := by
  obtain ⟨hvalue, -, hmembers⟩ := ih
  rw [members] at h
  split at h
  · split at h
    · contradiction
    · rename_i name afterName hname
      split at h
      · split at h
        · contradiction
        · rename_i first afterFirst hfirst
          have hhead := hvalue _ _ _ _ hfirst
          split at h
          · obtain ⟨⟨others, _⟩, hothers, h⟩ := Option.map_eq_some_iff.1 h
            obtain ⟨rfl, -⟩ := Prod.mk.inj h
            exact List.forall_mem_cons.2 ⟨hhead, hmembers _ _ _ _ _ hothers⟩
          · obtain ⟨rfl, -⟩ := Prod.mk.inj (Option.some.inj h)
            exact List.forall_mem_singleton.2 hhead
          · contradiction
      · contradiction
  · contradiction

end Step

/-- Whatever the fuel, nothing that is read has NaN. -/
theorem readsNoNan (fuel : Nat) : ReadsNoNan fuel := by
  induction fuel with
  | zero =>
    refine ⟨?_, ?_, ?_⟩
    · intro skim s v rest h
      simp [value] at h
    · intro skim s vs rest h
      simp [elements] at h
    · intro skim skimValue s ms rest h
      simp [members] at h
  | succ fuel ih =>
    refine ⟨?_, ?_, ?_⟩
    · intro skim s v rest h
      exact noNan_of_value_succ ih h
    · intro skim s vs rest h
      exact noNan_of_elements_succ ih h
    · intro skim skimValue s ms rest h
      exact noNan_of_members_succ ih h

/-- No number of a document is a NaN. -/
theorem noNan_of_parse? {document : String} (h : parse? document = some v) : v.NoNan := by
  unfold parse? parseFront? at h
  split at h
  · rename_i w rest hread
    split at h
    · obtain rfl := Option.some.inj h
      exact (readsNoNan _).1 _ _ _ _ hread
    · contradiction
  · contradiction

end Json

end CourseQuery
