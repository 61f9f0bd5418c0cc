import CourseQuery.Dataset.Memory
import CourseQuery.Proofs.Catalog
import CourseQuery.Proofs.Dataset.Loading
import CourseQuery.Proofs.Import.Records
import CourseQuery.Proofs.Json.Numbers

/-!
# What a store hands out can be used

Every step of an answer relies on records that are complete and hold no NaN. A store on disk hands
out nothing else, whatever its files hold: what is loaded was checked field by field, and no numeral
of a document denotes a NaN. A store in memory checks nothing when it loads, so there it is an
invariant: the empty store has it, and it is kept because an import yields usable records only.
-/

set_option autoImplicit false

namespace CourseQuery

/-- Every record that a store hands out is complete and without NaN. -/
def UsableStore {σ : Type} [Store σ] (store : σ) : Prop :=
  ∀ id records, Store.load store id = .ok records → ∀ r ∈ records, r.Complete ∧ r.NoNan

/-! ## Records of a document -/

/-- A cell that holds a number is read from that number. -/
theorem Cell.number?_of_ofJson? {v : Json} {x : Binary64} (h : ofJson? v = some (.number x)) :
    v.number? = some x := by
  unfold ofJson? at h
  split at h
  · cases Option.some.inj h
  · obtain ⟨y, hy, hcell⟩ := Option.map_eq_some_iff.1 h
    rw [hy, Cell.number.inj hcell]

namespace Record

/-- A record that is read from JSON without NaN has no NaN. -/
theorem noNan_of_ofJson {v : Json} {r : Record} (hv : v.NoNan) (h : ofJson v = .ok r) :
    r.NoNan := by
  obtain ⟨members, rfl, hspelled⟩ := ofJson_eq_ok_iff.1 h
  intro f hnan
  -- the cell is read from a member of the object, and the member is a number of the document
  rw [hspelled.cell] at hnan
  obtain ⟨w, hlast, hread⟩ := Option.bind_eq_some_iff.1 hnan
  have hw := Json.mem_valuesOf.1 (List.mem_of_getLast? hlast)
  cases hv with
  | object hmembers => exact (hmembers _ hw).number? (Cell.number?_of_ofJson? hread)

/-- Records that are read from a text have no NaN. -/
theorem noNan_of_listOfText? {document : String} {records : List Record}
    (h : listOfText? document = some records) : ∀ r ∈ records, r.NoNan := by
  unfold listOfText? at h
  split at h
  · rename_i vs hparse
    intro r hr
    obtain ⟨v, hv, hread⟩ := exists_of_mem_mapM h hr
    cases Json.noNan_of_parse? hparse with
    | array hvs =>
      apply noNan_of_ofJson (hvs v hv)
      cases hjson : ofJson v with
      | error fault =>
        rw [hjson] at hread
        contradiction
      | ok t =>
        rw [hjson] at hread
        rw [Option.some.inj hread]
  · contradiction

/-- A finite record has no NaN. -/
theorem Finite.noNan {r : Record} (h : r.Finite) : r.NoNan := by
  intro f hnan
  have hfinite := h f _ hnan
  contradiction

end Record

/-! ## On disk -/

namespace Disk

/-- A directory hands out usable records only, whatever its files hold. -/
theorem usableStore (d : Directory) : UsableStore d := by
  intro id records h
  obtain ⟨m, file, -, -, hverified⟩ := load_eq_ok_iff.1 h
  obtain ⟨-, hread, -, hcomplete⟩ := verified_eq_ok_iff.1 hverified
  obtain ⟨document, -, hlist⟩ := Option.bind_eq_some_iff.1 hread
  exact fun r hr => ⟨hcomplete r hr, Record.noNan_of_listOfText? hlist r hr⟩

end Disk

/-! ## In memory -/

namespace MemoryStore

variable {s : MemoryStore}

/-- A store in memory is usable if every record in it is complete and has no NaN. -/
theorem usableStore_iff :
    UsableStore s ↔ ∀ id dataset, s.datasets.find? id = some dataset →
      ∀ r ∈ dataset.records, r.Complete ∧ r.NoNan := by
  constructor
  · intro h id dataset hs
    apply h id
    simp only [Store.load, load, hs]
  · intro h id records hload
    cases hs : s.datasets.find? id with
    | none =>
      simp only [Store.load, load, hs] at hload
      contradiction
    | some dataset =>
      simp only [Store.load, load, hs] at hload
      rw [← Except.ok.inj hload]
      exact h id dataset hs

/-- The empty store is usable. -/
theorem usableStore_empty : UsableStore empty :=
  usableStore_iff.2 nofun

/-- Putting complete records without NaN into a usable store keeps it usable. -/
theorem usableStore_put (h : UsableStore s) {id : String} {dataset : Dataset}
    (hrecords : ∀ r ∈ dataset.records, r.Complete ∧ r.NoNan) : UsableStore (s.put id dataset) := by
  rw [usableStore_iff] at h ⊢
  intro other found hfound
  rcases Catalog.find?_insert_eq_some_iff.1 hfound with ⟨-, rfl⟩ | ⟨-, hs⟩
  · exact hrecords
  · exact h other found hs

/-- An import into a usable store leaves a usable store. -/
theorem usableStore_add (h : UsableStore s) (id : String) (archive : Bytes) (kind : DatasetKind) :
    UsableStore (s.add id archive kind).store := by
  unfold add
  cases hobstacle : s.obstacle? id with
  | some error => exact h
  | none =>
    cases himport : Import.ofArchive archive kind with
    | mk imported trace =>
      cases imported with
      | error fault => exact h
      | ok records =>
        obtain ⟨-, hrecords⟩ := Import.ofArchive_complete (congrArg Prod.fst himport)
        apply usableStore_put h
        intro r hr
        exact ⟨(hrecords r hr).1, (hrecords r hr).2.noNan⟩

/-- A removal from a usable store leaves a usable store. -/
theorem usableStore_remove (h : UsableStore s) (id : String) :
    UsableStore (s.remove id).store := by
  unfold remove
  split
  · rw [usableStore_iff] at h ⊢
    intro other dataset hfound
    exact h other dataset (Catalog.find?_erase_eq_some_iff.1 hfound).2
  · exact h

end MemoryStore

end CourseQuery
