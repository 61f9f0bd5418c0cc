/-!
# Catalogs

A catalog keeps values under names, each name once, in the order of the names. Datasets in memory
are a catalog by id and a directory is one by file name. Its entries are sorted by construction, so
two catalogs that find the same values are equal.
-/

set_option autoImplicit false

namespace CourseQuery

/-- Values under names, in the order of the names. -/
structure Catalog (α : Type) where
  entries : List (String × α)
  sorted : entries.Pairwise fun a b => a.1 < b.1

namespace Catalog

variable {α : Type}

/-- The catalog without entries. -/
def empty : Catalog α := ⟨[], .nil⟩

instance : Inhabited (Catalog α) := ⟨empty⟩

/-- The names, in order. -/
def names (c : Catalog α) : List String :=
  c.entries.map Prod.fst

/-- The value under a name, if there is one. -/
def find? (c : Catalog α) (name : String) : Option α :=
  c.entries.lookup name

/-- Whether there is a value under a name. -/
def contains (c : Catalog α) (name : String) : Bool :=
  (c.find? name).isSome

/-- Puts a value into sorted entries. -/
def insertEntry (name : String) (value : α) : List (String × α) → List (String × α)
  | [] => [(name, value)]
  | (other, v) :: rest =>
    if name < other then (name, value) :: (other, v) :: rest
    else if name = other then (name, value) :: rest
    else (other, v) :: insertEntry name value rest

/-- Putting a value in adds no other entry. -/
theorem mem_insertEntry {name : String} {value : α} {l : List (String × α)} {e : String × α}
    (h : e ∈ insertEntry name value l) : e = (name, value) ∨ e ∈ l := by
  induction l with
  | nil => simpa [insertEntry] using h
  | cons head rest ih =>
    rw [insertEntry] at h
    split at h
    · exact List.mem_cons.1 h
    · split at h
      · exact (List.mem_cons.1 h).imp_right (List.mem_cons_of_mem _)
      · rcases List.mem_cons.1 h with rfl | h
        · exact Or.inr List.mem_cons_self
        · exact (ih h).imp_right (List.mem_cons_of_mem _)

/-- Putting a value in keeps the names in strict order. -/
theorem insertEntry_sorted (name : String) (value : α) {l : List (String × α)}
    (h : l.Pairwise fun a b => a.1 < b.1) :
    (insertEntry name value l).Pairwise fun a b => a.1 < b.1 := by
  induction l with
  | nil => simp [insertEntry]
  | cons head rest ih =>
    obtain ⟨other, v⟩ := head
    have hrest := List.pairwise_cons.1 h
    simp only [insertEntry]
    split
    · rename_i hlt
      refine List.pairwise_cons.2 ⟨fun e he => ?_, h⟩
      rcases List.mem_cons.1 he with rfl | he
      · exact hlt
      · exact String.lt_trans hlt (hrest.1 e he)
    · rename_i hnlt
      split
      · rename_i heq
        exact List.pairwise_cons.2 ⟨heq ▸ hrest.1, hrest.2⟩
      · rename_i hne
        refine List.pairwise_cons.2 ⟨fun e he => ?_, ih hrest.2⟩
        rcases mem_insertEntry he with rfl | he
        · exact Std.lt_of_le_of_ne (String.not_lt.1 hnlt) (Ne.symm hne)
        · exact hrest.1 e he

/-- Puts a value under a name, in place of the one that was there. -/
def insert (c : Catalog α) (name : String) (value : α) : Catalog α :=
  ⟨insertEntry name value c.entries, insertEntry_sorted name value c.sorted⟩

/-- Removes the value under a name. -/
def erase (c : Catalog α) (name : String) : Catalog α :=
  ⟨c.entries.filter fun e => e.1 ≠ name, c.sorted.filter _⟩

end Catalog

end CourseQuery
