import CourseQuery.Json.Value

/-!
# Parts of values

What the parts of a value that a caller asks for say about the value: its string, its integer in a
range, the members of a name.
-/

set_option autoImplicit false

namespace CourseQuery.Json

variable {v : Json} {name : String} {members : List (String × Json)}

/-- A value is read as a text if it is one. -/
theorem string?_eq_some_iff {s : String} : v.string? = some s ↔ v = .string s := by
  cases v <;> simp [string?]

/-- A number below the bound is read as itself. -/
theorem natBelow?_natCast {n bound : Nat} (h : n < bound) :
    natBelow? bound (integer n) = some n := by
  have hrange : (0 : Int) ≤ n ∧ (n : Int) < bound := by omega
  rw [natBelow?, if_pos hrange, Int.toNat_natCast]

/-- A value is read as a number below a bound if it is one. -/
theorem natBelow?_eq_some_iff {bound n : Nat} :
    v.natBelow? bound = some n ↔ v = .integer n ∧ n < bound := by
  constructor
  · intro h
    cases v with
    | integer i =>
      rw [natBelow?, Option.ite_none_right_eq_some, Option.some.injEq] at h
      obtain ⟨hrange, rfl⟩ := h
      rw [Int.toNat_of_nonneg hrange.1]
      exact ⟨rfl, by omega⟩
    | _ => contradiction
  · rintro ⟨rfl, hn⟩
    exact natBelow?_natCast hn

/-- The values under a name are those of the members with this name, in order. -/
theorem valuesOf_cons (m : String × Json) :
    valuesOf name (m :: members) =
      if m.1 = name then m.2 :: valuesOf name members else valuesOf name members := by
  unfold valuesOf
  rw [List.filter_cons]
  simp only [decide_eq_true_eq]
  split <;> rfl

/-- A value is found under a name if a member holds it there. -/
theorem mem_valuesOf : v ∈ valuesOf name members ↔ (name, v) ∈ members := by
  simp [valuesOf, List.mem_filter]

/-- A value is the only one of its name if no other member has this name. -/
theorem only?_eq_some_iff : only? name members = some v ↔ valuesOf name members = [v] := by
  unfold only?
  split
  · rename_i w hvalues
    rw [hvalues, Option.some.injEq, List.cons.injEq, and_iff_left rfl]
  · rename_i hvalues
    exact iff_of_false nofun (hvalues v)

end CourseQuery.Json
