import CourseQuery.Catalog

/-!
# Laws of catalogs

A catalog is known by what it finds: `find?_eq_some_iff` joins finding with the entries, and
`Catalog.ext` says that two catalogs that find the same are the same. The laws of putting in and
removing are stated for what is found.
-/

set_option autoImplicit false

namespace CourseQuery.Catalog

variable {α : Type} {name other : String} {value : α}

/-- The first entry is found under its name and hides no other. -/
theorem lookup_cons_eq (first : String) (v : α) (rest : List (String × α)) :
    ((first, v) :: rest).lookup name = if name = first then some v else rest.lookup name := by
  rw [List.lookup_cons]
  by_cases h : name = first
  · simp [h]
  · simp [h, beq_eq_false_iff_ne.2 h]

/-- In entries with different names, an entry is what is found under its name. -/
theorem lookup_eq_some_iff {l : List (String × α)} (h : l.Pairwise fun a b => a.1 < b.1) :
    l.lookup name = some value ↔ (name, value) ∈ l := by
  induction l with
  | nil => simp
  | cons head rest ih =>
    obtain ⟨first, v⟩ := head
    obtain ⟨hhead, hrest⟩ := List.pairwise_cons.1 h
    rw [lookup_cons_eq, List.mem_cons]
    by_cases hname : name = first
    · subst hname
      have hnot : (name, value) ∉ rest := fun hmem => String.lt_irrefl name (hhead _ hmem)
      simp [hnot, eq_comm]
    · simp [hname, ih hrest]

/-- What is found under a name is what the catalog lists under it. -/
theorem find?_eq_some_iff {c : Catalog α} : c.find? name = some value ↔ (name, value) ∈ c.entries :=
  lookup_eq_some_iff c.sorted

/-- Sorted entries that find the same are the same. -/
theorem entries_ext {l m : List (String × α)} (hl : l.Pairwise fun a b => a.1 < b.1)
    (hm : m.Pairwise fun a b => a.1 < b.1) (h : ∀ name, l.lookup name = m.lookup name) : l = m := by
  have hnodup : ∀ {k : List (String × α)}, k.Pairwise (fun a b => a.1 < b.1) → k.Nodup := by
    intro k hk
    refine hk.imp fun {a b} hab => ?_
    rintro rfl
    exact String.lt_irrefl _ hab
  refine List.Perm.eq_of_pairwise (fun a b _ _ hab hba => ?_) hl hm ?_
  · exact absurd (String.lt_trans hab hba) (String.lt_irrefl _)
  · refine (List.perm_ext_iff_of_nodup (hnodup hl) (hnodup hm)).2 fun e => ?_
    obtain ⟨name, value⟩ := e
    rw [← lookup_eq_some_iff hl, ← lookup_eq_some_iff hm, h]

/-- Two catalogs that find the same are the same. -/
theorem ext {c d : Catalog α} (h : ∀ name, c.find? name = d.find? name) : c = d := by
  obtain ⟨l, hl⟩ := c
  obtain ⟨m, hm⟩ := d
  obtain rfl := entries_ext hl hm h
  rfl

/-- An entry that is inserted is found under its name, and any other as before. -/
theorem lookup_insertEntry (l : List (String × α)) :
    (insertEntry name value l).lookup other =
      if other = name then some value else l.lookup other := by
  induction l with
  | nil => exact lookup_cons_eq name value []
  | cons head rest ih =>
    obtain ⟨first, v⟩ := head
    rw [insertEntry]
    split
    · rw [lookup_cons_eq]
    · split
      · rename_i heq
        subst heq
        rw [lookup_cons_eq, lookup_cons_eq]
        split
        · rfl
        · rfl
      · rename_i hne
        rw [lookup_cons_eq, lookup_cons_eq, ih]
        by_cases hother : other = name
        · subst hother
          rw [if_neg hne, if_pos rfl, if_pos rfl]
        · rw [if_neg hother, if_neg hother]

/-- What is put in is found, and nothing else changes. -/
@[simp]
theorem find?_insert (c : Catalog α) :
    (c.insert name value).find? other = if other = name then some value else c.find? other :=
  lookup_insertEntry c.entries

/-- What is removed is not found, and nothing else changes. -/
@[simp]
theorem find?_erase (c : Catalog α) :
    (c.erase name).find? other = if other = name then none else c.find? other := by
  refine Option.ext fun v => ?_
  rw [find?_eq_some_iff, erase]
  by_cases hother : other = name
  · simp [hother]
  · simp [hother, find?_eq_some_iff]

/-- After an insertion its name leads to the new value, and any other name to what it led to. -/
theorem find?_insert_eq_some_iff {c : Catalog α} {v : α} :
    (c.insert name value).find? other = some v ↔
      other = name ∧ v = value ∨ other ≠ name ∧ c.find? other = some v := by
  rw [find?_insert]
  by_cases hother : other = name
  · simp [hother, eq_comm]
  · simp [hother]

/-- After a removal a name leads to what it led to, unless it is the one removed. -/
theorem find?_erase_eq_some_iff {c : Catalog α} {v : α} :
    (c.erase name).find? other = some v ↔ other ≠ name ∧ c.find? other = some v := by
  rw [find?_erase]
  by_cases hother : other = name
  · simp [hother]
  · simp [hother]

/-- Putting in what is there changes nothing. -/
theorem insert_eq_self_iff {c : Catalog α} :
    c.insert name value = c ↔ c.find? name = some value := by
  constructor
  · intro h
    rw [← h, find?_insert, if_pos rfl]
  · intro h
    refine ext fun other => ?_
    rw [find?_insert]
    split
    · rename_i hother
      rw [hother, h]
    · rfl

/-- A catalog contains a name if something is found under it. -/
@[simp]
theorem contains_eq_true_iff {c : Catalog α} :
    c.contains name = true ↔ ∃ value, c.find? name = some value :=
  Option.isSome_iff_exists

end CourseQuery.Catalog
