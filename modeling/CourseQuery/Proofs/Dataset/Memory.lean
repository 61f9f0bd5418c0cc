import CourseQuery.Dataset.Memory
import CourseQuery.Proofs.Catalog
import CourseQuery.Proofs.Import.Records

/-!
# What an operation changes in memory

A store in memory changes in two ways only: an import that succeeds puts a dataset under an id that
was free, and a removal that succeeds takes one away.
-/

set_option autoImplicit false

namespace CourseQuery.MemoryStore

variable {s : MemoryStore} {id : String}

/-- A store does not contain an id under which nothing is found. -/
theorem contains_eq_false_iff : s.datasets.contains id = false ↔ s.datasets.find? id = none := by
  rw [Catalog.contains, Option.isSome_eq_false_iff, Option.isNone_iff_eq_none]

/-- Where nothing is in the way of a dataset, its id is valid and free. -/
theorem obstacle?_eq_none_iff :
    s.obstacle? id = none ↔ DatasetId.Valid id ∧ s.datasets.find? id = none := by
  rw [← contains_eq_false_iff]
  unfold obstacle? StoreError.ofId? DatasetId.Valid
  cases DatasetId.fault? id with
  | some fault => simp
  | none => cases s.datasets.contains id <;> simp

/-- An import fails and changes nothing, or the id is valid and free, the archive holds courses, and
their records are put under the id. -/
theorem add_cases (s : MemoryStore) (id : String) (archive : Bytes) (kind : DatasetKind) :
    ((∃ error, (s.add id archive kind).result = .error error) ∧
        (s.add id archive kind).store = s) ∨
      ∃ records, DatasetId.Valid id ∧ s.datasets.find? id = none ∧ kind = .courses ∧
        (Import.ofArchive archive kind).1 = .ok records ∧
        (s.add id archive kind).result = .ok ⟨id, .courses, records.length⟩ ∧
        (s.add id archive kind).store = s.put id ⟨.courses, records⟩ := by
  unfold add
  cases hobstacle : s.obstacle? id with
  | some error => exact Or.inl ⟨⟨error, rfl⟩, rfl⟩
  | none =>
    obtain ⟨hvalid, hfree⟩ := obstacle?_eq_none_iff.1 hobstacle
    cases himport : Import.ofArchive archive kind with
    | mk imported trace =>
      cases imported with
      | error fault => exact Or.inl ⟨⟨_, rfl⟩, rfl⟩
      | ok records =>
        obtain ⟨rfl, -⟩ := Import.ofArchive_complete (congrArg Prod.fst himport)
        exact Or.inr ⟨records, hvalid, hfree, rfl, rfl, rfl, rfl⟩

/-- A removal fails and changes nothing, or there is a dataset under the id and it goes. -/
theorem remove_cases (s : MemoryStore) (id : String) :
    (s.datasets.find? id = none ∧ (s.remove id).result = .error (.notFound id) ∧
        (s.remove id).store = s) ∨
      (∃ dataset, s.datasets.find? id = some dataset) ∧ (s.remove id).result = .ok () ∧
        (s.remove id).store = ⟨s.datasets.erase id⟩ := by
  unfold remove
  cases hfound : s.datasets.find? id with
  | none =>
    rw [contains_eq_false_iff.2 hfound]
    exact Or.inl ⟨rfl, rfl, rfl⟩
  | some dataset =>
    rw [Catalog.contains_eq_true_iff.2 ⟨dataset, hfound⟩]
    exact Or.inr ⟨⟨dataset, rfl⟩, rfl, rfl⟩

/-- A listing shows the datasets of a store. -/
theorem mem_list_iff {info : DatasetInfo} :
    info ∈ s.list.infos ↔
      ∃ id dataset, s.datasets.find? id = some dataset ∧ info = dataset.info id := by
  simp only [list, List.mem_map, Prod.exists, Catalog.find?_eq_some_iff, eq_comm (a := info)]

/-- A listing stands in the order of the ids, and no id is in it twice. -/
theorem list_sorted (s : MemoryStore) : s.list.infos.Pairwise fun a b => a.id < b.id :=
  List.pairwise_map.2 s.datasets.sorted

end CourseQuery.MemoryStore
