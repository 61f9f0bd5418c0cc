import CourseQuery.Proofs.Dataset.Memory
import CourseQuery.Proofs.Service.Holdings

/-!
# A service over a store in memory

A service over a store in memory is a map from ids to records. A line that is granted puts the
records of an archive under an id that was free or takes an id away, and every other line leaves the
map alone. So after a run the map is what the run holds, and that is what a listing shows.
-/

set_option autoImplicit false

namespace CourseQuery

/-- A store in memory holds the records of what is held, under valid ids. -/
structure MemoryStore.Keeps (held : String → Option (List Record)) (s : MemoryStore) : Prop where
  found : ∀ id, s.datasets.find? id = (held id).map (Dataset.mk .courses)
  valid : ∀ id records, held id = some records → DatasetId.Valid id

namespace Service

/-! ## One line -/

/-- A line brings a dataset into a store: its id is valid and was free, and now the store has the
records of the archive there, of which there are some, and what it had elsewhere. -/
structure Takes (s : MemoryStore) (line id : String) (records : List Record) (s' : MemoryStore) :
    Prop where
  brings : ∃ archive, Brings line id archive .courses ∧
    (Import.ofArchive archive .courses).1 = .ok records
  valid : DatasetId.Valid id
  nonempty : records ≠ []
  free : s.datasets.find? id = none
  found : ∀ other, s'.datasets.find? other =
    if other = id then some ⟨.courses, records⟩ else s.datasets.find? other

/-- A line drops a dataset that a store has, and now the store has the other ones. -/
structure Loses (s : MemoryStore) (line id : String) (s' : MemoryStore) : Prop where
  drops : Drops line id
  present : ∃ dataset, s.datasets.find? id = some dataset
  found : ∀ other, s'.datasets.find? other =
    if other = id then none else s.datasets.find? other

section

variable (now : String) (s : MemoryStore) (line : String)

/-- A line that is not granted leaves a store in memory as it was. -/
theorem store_of_refused (h : ¬ Granted now s line) : (respondLine now s line).store = s := by
  rcases respondLine_cases now s line with
    ⟨-, hstore⟩ | ⟨id, archive, kind, -, hstore, hgranted⟩ | ⟨id, -, hstore, hgranted⟩
  · exact hstore
  · rw [hstore]
    rcases s.add_cases id archive kind with
      ⟨-, hadd⟩ | ⟨records, -, -, -, -, hresult, -⟩
    · exact hadd
    · exact absurd (hgranted.2 ⟨_, hresult⟩) h
  · rw [hstore]
    rcases s.remove_cases id with ⟨-, -, hremove⟩ | ⟨-, hresult, -⟩
    · exact hremove
    · exact absurd (hgranted.2 hresult) h

/-- A line is granted exactly when it brings a dataset that a store in memory can take or drops one
that it has. -/
theorem granted_iff : Granted now s line ↔
    (∃ id records, Takes s line id records (respondLine now s line).store) ∨
      ∃ id, Loses s line id (respondLine now s line).store := by
  constructor
  · intro h
    rcases respondLine_cases now s line with
      ⟨hrefused, -⟩ | ⟨id, archive, kind, hbrings, hstore, hgranted⟩ |
        ⟨id, hdrops, hstore, hgranted⟩
    · exact absurd h hrefused
    · obtain ⟨info, hinfo⟩ := hgranted.1 h
      left
      rw [hstore]
      rcases s.add_cases id archive kind with
        ⟨⟨error, herror⟩, -⟩ | ⟨records, hvalid, hfree, rfl, himport, -, hadd⟩
      · have hclash := hinfo.symm.trans herror
        contradiction
      · refine ⟨id, records, ⟨archive, hbrings, himport⟩, hvalid,
          Import.ofArchive_ne_nil himport, hfree, fun other => ?_⟩
        have hput := congrArg (fun t => t.datasets.find? other) hadd
        exact hput.trans (Catalog.find?_insert s.datasets)
    · have hok := hgranted.1 h
      right
      rw [hstore]
      rcases s.remove_cases id with ⟨-, herror, -⟩ | ⟨hpresent, -, hremove⟩
      · have hclash := hok.symm.trans herror
        contradiction
      · refine ⟨id, hdrops, hpresent, fun other => ?_⟩
        have herase := congrArg (fun t => t.datasets.find? other) hremove
        exact herase.trans (Catalog.find?_erase s.datasets)
  · intro h
    -- either way the store has changed
    by_contra hrefused
    have hsame := store_of_refused now s line hrefused
    rcases h with ⟨id, records, htakes⟩ | ⟨id, hloses⟩
    · have hfound := htakes.found id
      rw [hsame, htakes.free, if_pos rfl] at hfound
      contradiction
    · obtain ⟨dataset, hpresent⟩ := hloses.present
      have hgone := hloses.found id
      rw [hsame, hpresent, if_pos rfl] at hgone
      contradiction

end

/-! ## A run of lines -/

/-- The empty store keeps nothing. -/
theorem keeps_empty : MemoryStore.Keeps (fun _ => none) .empty where
  found _ := rfl
  valid _ _ h := nomatch h

/-- However long a run is, a store in memory keeps what is held. -/
theorem tracks_keeps : Tracks MemoryStore.Keeps where
  add := by
    intro held s now id archive kind h
    rcases s.add_cases id archive kind with
      ⟨hfails, hstore⟩ | ⟨records, hvalid, hfree, -, himport, hresult, hstore⟩
    · left
      refine ⟨hfails, ?_⟩
      change MemoryStore.Keeps held (s.add id archive kind).store
      rw [hstore]
      exact h
    · right
      have hheld : held id = none := by
        rw [h.found] at hfree
        exact Option.map_eq_none_iff.1 hfree
      refine ⟨_, records, hresult, himport, hheld, ?_⟩
      change MemoryStore.Keeps _ (s.add id archive kind).store
      rw [hstore]
      refine ⟨?_, ?_⟩
      · intro other
        rw [MemoryStore.put, Catalog.find?_insert, Function.update_apply, h.found]
        split
        · rfl
        · rfl
      · intro other found hfound
        rw [Function.update_apply] at hfound
        split at hfound
        · rename_i hother
          rw [hother]
          exact hvalid
        · exact h.valid other found hfound
  remove := by
    intro held s id h
    rcases s.remove_cases id with ⟨-, herror, hstore⟩ | ⟨-, hresult, hstore⟩
    · left
      refine ⟨⟨_, herror⟩, ?_⟩
      change MemoryStore.Keeps held (s.remove id).store
      rw [hstore]
      exact h
    · right
      refine ⟨hresult, ?_⟩
      change MemoryStore.Keeps _ (s.remove id).store
      rw [hstore]
      refine ⟨?_, ?_⟩
      · intro other
        rw [Catalog.find?_erase, Function.update_apply, h.found]
        split
        · rfl
        · rfl
      · intro other found hfound
        rw [Function.update_apply] at hfound
        split at hfound
        · contradiction
        · exact h.valid other found hfound

/-- What a store in memory keeps is what its listing shows. -/
theorem shows_of_keeps {held : String → Option (List Record)} {s : MemoryStore}
    {run : List (String × String)} (h : MemoryStore.Keeps held s)
    (hheld : ∀ id records, held id = some records ↔ Holds MemoryStore.empty id records run) :
    Shows s.list.infos MemoryStore.empty run where
  sorted := s.list_sorted
  mem_iff := by
    intro info
    rw [MemoryStore.mem_list_iff]
    constructor
    · rintro ⟨id, dataset, hfound, rfl⟩
      rw [h.found] at hfound
      obtain ⟨records, hrecords, rfl⟩ := Option.map_eq_some_iff.1 hfound
      exact ⟨records, (hheld id records).1 hrecords, rfl⟩
    · rintro ⟨records, hholds, hinfo⟩
      refine ⟨info.id, ⟨.courses, records⟩, ?_, hinfo⟩
      rw [h.found, (hheld info.id records).2 hholds]
      rfl

/-- A service over a store in memory acts as a map. Each line is granted when it takes in a dataset
or loses one and changes nothing otherwise; the datasets are what the run holds, and any request for
the listing is answered with these. -/
structure MapMachine (run : List (String × String)) (s : MemoryStore) : Prop where
  refused : ∀ now line, ¬ Granted now s line → (respondLine now s line).store = s
  granted : ∀ now line, Granted now s line ↔
    (∃ id records, Takes s line id records (respondLine now s line).store) ∨
      ∃ id, Loses s line id (respondLine now s line).store
  held : ∀ id dataset, s.datasets.find? id = some dataset ↔
    dataset.kind = .courses ∧ Holds MemoryStore.empty id dataset.records run
  listed : ∀ now line, Request.parse? line = some .list →
    ∃ infos, (respondLine now s line).result = .ofInfos infos ∧ Shows infos MemoryStore.empty run

/-- After any run of lines from an empty store in memory the service acts as the map of what the run
holds. -/
theorem mapMachine_storeAfter (run : List (String × String)) :
    MapMachine run (storeAfter MemoryStore.empty run) := by
  obtain ⟨held, hkeeps, hheld⟩ := tracks_keeps.after_run keeps_empty run
  refine ⟨fun now line => store_of_refused now _ line, fun now line => granted_iff now _ line,
    ?_, ?_⟩
  · rintro id ⟨kind, records⟩
    rw [hkeeps.found, Option.map_eq_some_iff]
    constructor
    · rintro ⟨found, hfound, hdataset⟩
      obtain ⟨rfl, rfl⟩ := Dataset.mk.inj hdataset
      exact ⟨rfl, (hheld id found).1 hfound⟩
    · rintro ⟨rfl, hholds⟩
      exact ⟨records, (hheld id records).2 hholds, rfl⟩
  · intro now line hline
    refine ⟨_, ?_, shows_of_keeps hkeeps hheld⟩
    simp only [respondLine, hline]
    rfl

end Service

end CourseQuery
