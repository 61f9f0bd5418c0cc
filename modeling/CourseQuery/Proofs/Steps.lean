/-!
# Steps that may fail

When two steps or a list of steps succeed, and with what.
-/

set_option autoImplicit false

namespace CourseQuery

/-- Two steps succeed exactly when the first does and the second does on its result. -/
theorem bind_eq_ok_iff {ε α β : Type} {x : Except ε α} {f : α → Except ε β} {y : β} :
    (x >>= f) = .ok y ↔ ∃ a, x = .ok a ∧ f a = .ok y := by
  cases x with
  | error e => simp [bind, Except.bind]
  | ok a => simp [bind, Except.bind]

/-- Two steps fail exactly when the first does or the second does on its result. -/
theorem bind_eq_error_iff {ε α β : Type} {x : Except ε α} {f : α → Except ε β} {e : ε} :
    (x >>= f) = .error e ↔ x = .error e ∨ ∃ a, x = .ok a ∧ f a = .error e := by
  cases x with
  | error e => simp [bind, Except.bind]
  | ok a => simp [bind, Except.bind]

/-- A mapped result is the image of a result. -/
theorem map_eq_ok_iff {ε α β : Type} {x : Except ε α} {f : α → β} {y : β} :
    x.map f = .ok y ↔ ∃ a, x = .ok a ∧ f a = y := by
  cases x with
  | error e => simp [Except.map]
  | ok a => simp [Except.map]

/-- Mapping results changes no error. -/
theorem map_eq_error_iff {ε α β : Type} {x : Except ε α} {f : α → β} {e : ε} :
    x.map f = .error e ↔ x = .error e := by
  cases x with
  | error e' => simp [Except.map]
  | ok a => simp [Except.map]

/-- Mapping errors changes no result. -/
theorem mapError_eq_ok_iff {ε ε' α : Type} {x : Except ε α} {f : ε → ε'} {y : α} :
    x.mapError f = .ok y ↔ x = .ok y := by
  cases x with
  | error e =>
    constructor
    · intro h
      contradiction
    · intro h
      contradiction
  | ok a =>
    constructor
    · intro h
      exact congrArg Except.ok (Except.ok.inj h)
    · intro h
      exact congrArg Except.ok (Except.ok.inj h)

/-- A mapped error is the image of an error. -/
theorem mapError_eq_error_iff {ε ε' α : Type} {x : Except ε α} {f : ε → ε'} {e : ε'} :
    x.mapError f = .error e ↔ ∃ e', x = .error e' ∧ f e' = e := by
  cases x with
  | error e' =>
    constructor
    · intro h
      exact ⟨e', rfl, Except.error.inj h⟩
    · rintro ⟨_, heq, hf⟩
      obtain rfl := Except.error.inj heq
      exact congrArg Except.error hf
  | ok a =>
    constructor
    · intro h
      contradiction
    · rintro ⟨_, heq, -⟩
      contradiction

/-- What is left of a result without its error is the result. -/
theorem eq_ok_of_toOption {ε α : Type} {x : Except ε α} {a : α} (h : x.toOption = some a) :
    x = .ok a := by
  cases x with
  | error e => contradiction
  | ok b => exact congrArg Except.ok (Option.some.inj h)

/-- What a step gives goes into the next one. -/
theorem bind_of_eq_some {α β : Type} {x : Option α} {f : α → Option β} {a : α} (h : x = some a) :
    (x >>= f) = f a := by
  rw [h]
  rfl

/-- A step on every element of a list succeeds exactly when it does on each of them. -/
theorem mapM_eq_some_iff {α β : Type} {g : α → Option β} {l : List α} {m : List β} :
    l.mapM g = some m ↔ l.map g = m.map some := by
  induction l generalizing m with
  | nil => cases m <;> simp
  | cons a l ih =>
    rw [List.mapM_cons, List.map_cons]
    simp only [Option.bind_eq_bind, Option.bind_eq_some_iff, Option.pure_def, Option.some.injEq, ih]
    cases m with
    | nil => simp
    | cons b m =>
      rw [List.map_cons, List.cons.injEq]
      constructor
      · rintro ⟨c, hc, rest, hrest, hcons⟩
        obtain ⟨rfl, rfl⟩ := List.cons.inj hcons
        exact ⟨hc, hrest⟩
      · rintro ⟨hb, hm⟩
        exact ⟨b, hb, m, hm, rfl⟩

/-- Steps that each succeed succeed together. -/
theorem exists_mapM_eq_some {α β : Type} {g : α → Option β} {l : List α}
    (h : ∀ a ∈ l, ∃ b, g a = some b) : ∃ m, l.mapM g = some m := by
  induction l with
  | nil => exact ⟨[], rfl⟩
  | cons a l ih =>
    obtain ⟨⟨b, hb⟩, hl⟩ := List.forall_mem_cons.1 h
    obtain ⟨m, hm⟩ := ih hl
    refine ⟨b :: m, mapM_eq_some_iff.2 ?_⟩
    rw [List.map_cons, List.map_cons, hb, mapM_eq_some_iff.1 hm]

/-- Elements that are sent to and fro one by one come to their images. -/
theorem mapM_map_eq_some {α β γ : Type} {l : List α} {φ : α → β} {ψ : α → γ} {g : β → Option γ}
    (h : ∀ a ∈ l, g (φ a) = some (ψ a)) : (l.map φ).mapM g = some (l.map ψ) := by
  rw [mapM_eq_some_iff, List.map_map, List.map_map]
  exact List.map_congr_left h

/-- What comes out of a list comes from one of its elements. -/
theorem exists_of_mem_mapM {α β : Type} {g : α → Option β} {l : List α} {m : List β}
    (h : l.mapM g = some m) {b : β} (hb : b ∈ m) : ∃ a ∈ l, g a = some b := by
  have hmem : some b ∈ l.map g := by
    rw [mapM_eq_some_iff.1 h]
    exact List.mem_map_of_mem hb
  exact List.mem_map.1 hmem

end CourseQuery
