import CourseQuery.Proofs.Dataset.Damage
import CourseQuery.Proofs.Dataset.Holding
import CourseQuery.Proofs.Sentence.Writing
import CourseQuery.Proofs.Service.Machine
import CourseQuery.Proofs.Service.Stores

/-!
# The listing and the answers to queries

What a listing shows is what sentences can reach. Under each id that is shown there are as many
records as the listing says, and a sentence with the id in it gets them all, in the order in which
they were imported; a sentence with any other id is told that there is no such dataset. This is so
after any run of lines that began with an empty store, in memory or on disk.

A store *opens* what is held when it loads it and nothing else. All that a sentence must get past is
then the same for both stores: an id that a store takes in is one that a sentence can hold.
-/

set_option autoImplicit false

namespace CourseQuery.Service

/-! ## A query for the identifiers -/

/-- The sentence that asks for the identifiers of all records of a dataset. -/
def identifiersSentence (id : String) : String :=
  "In courses dataset " ++ id ++ ", find all entries; show UUID."

/-- The query that this sentence asks. -/
def identifiersQuery (id : String) : Query where
  dataset := id
  filter := .everything
  display := [.uuid]
  sort := none
  display_ne_nil := List.cons_ne_nil _ _
  display_ordered := by decide
  sort_mem := nofun

/-- The identifiers of records, as a query shows them. -/
def identifiers (records : List Record) : List Record :=
  records.map fun r => r.restrict [.uuid]

/-- Whatever a valid id looks like, the sentence is read. -/
theorem read_identifiersSentence {id : String} (h : DatasetId.Valid id) :
    Sentence.read (identifiersSentence id) = .ok (identifiersQuery id) := by
  have hrest : ", find all entries; show UUID." =
      ", " ++ Sentence.writeFilter [] ++ " show " ++ Sentence.writeFields [.uuid] ++
        Sentence.writeOrder none := rfl
  have hwrite : identifiersSentence id = Sentence.write id [] [.uuid] none := by
    refine (congrArg ("In courses dataset " ++ id ++ ·) hrest).trans ?_
    simp only [Sentence.write_eq, String.append_assoc]
  have hasks : Sentence.Asks (Sentence.write id [] [.uuid] none) (identifiersQuery id) :=
    Sentence.asks_write (q := identifiersQuery id) h .nil nofun rfl (List.cons_ne_nil _ _)
      fun _ => Iff.rfl
  rw [hwrite]
  exact Sentence.read_of_asks hasks

/-! ## What a store opens -/

section

variable {σ : Type} [Store σ] {start : σ} {run : List (String × String)}
  {held : String → Option (List Record)} {store : σ} {id : String} {records : List Record}

/-- What a run holds are complete records. -/
theorem Holds.complete (h : Holds start id records run) : ∀ r ∈ records, r.Complete := by
  obtain ⟨-, -, archive, kind, -, himport⟩ := h.brought
  intro r hr
  exact ((Import.ofArchive_complete himport).2 r hr).1

/-- A store opens what is held and nothing else. The numbers of what is loaded do not matter here,
and on disk they may have changed. -/
structure Opens (held : String → Option (List Record)) (store : σ) : Prop where
  valid : ∀ {id records}, held id = some records → DatasetId.Valid id
  load : ∀ {id records}, held id = some records →
    ∃ loaded, Store.load store id = .ok loaded ∧ (∀ r ∈ loaded, r.Complete) ∧
      identifiers loaded = identifiers records
  missing : ∀ {id}, held id = none → Store.load store id = .error (.notFound id)

/-- The identifiers of records that are held are answered. -/
theorem Opens.perform_identifiers (h : Opens held store) (hheld : held id = some records) :
    (perform store (identifiersSentence id)).1 = .ok (identifiers records) := by
  obtain ⟨loaded, hload, hcomplete, hsame⟩ := h.load hheld
  have hrun : Execution.run (identifiersQuery id) loaded =
      .ok ⟨identifiers loaded, loaded.length⟩ := Execution.run_everything rfl rfl hcomplete
  have hload' : Store.load store (identifiersQuery id).dataset = .ok loaded := hload
  rw [perform, read_identifiersSentence (h.valid hheld)]
  simp only [answer, hload', hrun]
  exact congrArg Except.ok hsame

/-- A query about a dataset that is not held is answered with its absence. -/
theorem Opens.perform_missing (h : Opens held store) {sentence : String} {query : Query}
    (hread : Sentence.read sentence = .ok query) (hheld : held query.dataset = none) :
    (perform store sentence).1 = .error (.store (.notFound query.dataset)) := by
  simp only [perform, hread, answer, h.missing hheld]

/-! ## A listing after a run -/

/-- A listing is the answer to requests for one, and it shows what a run holds; each dataset that it
shows is reached by a sentence and none else is. -/
structure Listed (infos : List DatasetInfo) (start : σ) (run : List (String × String)) : Prop where
  shows : Shows infos start run
  answer : ∀ now line, Request.parse? line = some .list →
    (respondLine now (storeAfter start run) line).result = .ofInfos infos
  reached : ∀ info ∈ infos, ∃ records, Holds start info.id records run ∧
    records.length = info.rows ∧
    ∀ now line, Request.parse? line = some (.query (identifiersSentence info.id)) →
      (respondLine now (storeAfter start run) line).result = .ofRecords (identifiers records)
  missing : ∀ sentence query, Sentence.read sentence = .ok query →
    (∀ info ∈ infos, info.id ≠ query.dataset) →
    ∀ now line, Request.parse? line = some (.query sentence) →
      (respondLine now (storeAfter start run) line).result =
        .ofError (.store (.notFound query.dataset))

/-- Where a store opens what a run holds, its listing and its answers agree. -/
theorem Opens.listed (h : Opens held (storeAfter start run))
    (hheld : ∀ id records, held id = some records ↔ Holds start id records run)
    (hshows : Shows (Store.list (storeAfter start run)).infos start run) :
    Listed (Store.list (storeAfter start run)).infos start run where
  shows := hshows
  answer := by
    intro now line hline
    simp only [respondLine, hline]
    rfl
  reached := by
    intro info hinfo
    obtain ⟨records, hholds, hrows⟩ := (hshows.mem_iff info).1 hinfo
    refine ⟨records, hholds, congrArg DatasetInfo.rows hrows.symm, fun now line hline => ?_⟩
    have hperform := h.perform_identifiers ((hheld info.id records).2 hholds)
    simp only [respondLine, hline, respond, respondQuery, hperform]
    rfl
  missing := by
    intro sentence query hread hunlisted now line hline
    have hfree : held query.dataset = none := by
      apply Option.eq_none_iff_forall_ne_some.2
      intro records hrecords
      have hholds := (hheld query.dataset records).1 hrecords
      exact hunlisted ⟨query.dataset, .courses, records.length⟩
        ((hshows.mem_iff _).2 ⟨records, hholds, rfl⟩) rfl
    have hperform := h.perform_missing hread hfree
    simp only [respondLine, hline, respond, respondQuery, hperform]
    rfl

end

/-! ## Both stores -/

/-- A store in memory opens what it keeps. -/
theorem opens_of_memory {held : String → Option (List Record)} {s : MemoryStore}
    {run : List (String × String)} (h : MemoryStore.Keeps held s)
    (hheld : ∀ id records, held id = some records ↔ Holds MemoryStore.empty id records run) :
    Opens held s where
  valid hrecords := h.valid _ _ hrecords
  load := by
    intro id records hrecords
    have hload : s.load id = .ok records := by
      rw [MemoryStore.load, h.found, hrecords]
      rfl
    exact ⟨records, hload, ((hheld id records).1 hrecords).complete, rfl⟩
  missing := by
    intro id hfree
    change s.load id = _
    rw [MemoryStore.load, h.found, hfree]
    rfl

/-- On disk what is loaded comes back of a file, which keeps texts. -/
theorem opens_of_disk {held : String → Option (List Record)} {d : Directory}
    (h : Disk.Keeps held d)
    (hcounted : ∀ id records, held id = some records → records.length < UInt64.size) :
    Opens held d where
  valid hrecords := (h.stored hrecords).valid
  load := by
    intro id records hrecords
    have hcomplete := (h.stored hrecords).complete
    refine ⟨_, h.load_of_held hrecords (hcounted id records hrecords), ?_, ?_⟩
    · intro part hpart
      obtain ⟨r, hr, rfl⟩ := List.mem_map.1 hpart
      exact (hcomplete r hr).1.reread
    · have htext : ∀ f ∈ [Field.uuid], f.kind = .text := by decide
      rw [identifiers, identifiers, List.map_map]
      exact List.map_congr_left fun r hr => (hcomplete r hr).1.restrict_reread htext
  missing := h.load_of_free

/-- The store on disk tracks what is held. -/
theorem tracks_disk : Tracks Disk.Keeps where
  add now id archive kind h := h.add now id archive kind
  remove id h := h.remove id

/-- Every archive that a run brings has fewer than 2^64 records, so that they can be counted. -/
def Counted (run : List (String × String)) : Prop :=
  ∀ entry ∈ run, ∀ id archive kind records, Brings entry.2 id archive kind →
    (Import.ofArchive archive kind).1 = .ok records → records.length < UInt64.size

/-- After any run of lines from an empty store the listing and the answers to queries agree: in
memory, and on disk when the records of every archive can be counted. -/
theorem listing_matches_queries (run : List (String × String)) :
    (∃ infos, Listed infos MemoryStore.empty run) ∧
      (Counted run → ∀ start : Directory, start.folder = .empty →
        ∃ infos, Listed infos start run) := by
  constructor
  · obtain ⟨held, hkeeps, hheld⟩ := tracks_keeps.after_run keeps_empty run
    exact ⟨_, (opens_of_memory hkeeps hheld).listed hheld (shows_of_keeps hkeeps hheld)⟩
  · intro hrun start hstart
    obtain ⟨held, hkeeps, hheld⟩ := tracks_disk.after_run (Disk.keeps_of_empty hstart) run
    have hcounted : ∀ id records, held id = some records → records.length < UInt64.size := by
      intro id records hrecords
      obtain ⟨entry, hentry, archive, kind, hbrings, himport⟩ :=
        ((hheld id records).1 hrecords).brought
      exact hrun entry hentry id archive kind records hbrings himport
    obtain ⟨hsorted, hmem⟩ := hkeeps.list_infos hcounted
    refine ⟨_, (opens_of_disk hkeeps hcounted).listed hheld ⟨hsorted, fun info => ?_⟩⟩
    rw [← exists_congr fun records => and_congr_left' (hheld info.id records)]
    exact hmem info

/-- Lines that list and import a dataset, which is in place at their end. -/
def importingRun : List (String × String) :=
  [("then", Request.list.text),
   ("now", (Request.add "abc" "courses" (Base64.encode Import.oneRecord)).text)]

/-- The only archive that the lines bring is the one with one record. -/
theorem counted_importingRun : Counted importingRun := by
  intro entry hentry id archive kind records hbrings himport
  obtain ⟨name, content, hline, -, harchive⟩ := hbrings
  obtain ⟨rfl, -⟩ := Import.ofArchive_complete himport
  simp only [importingRun, List.mem_cons, List.not_mem_nil, or_false] at hentry
  rcases hentry with rfl | rfl
  · simp [Request.parse?_text] at hline
  · obtain ⟨-, -, rfl⟩ :
        "abc" = id ∧ "courses" = name ∧ Base64.encode Import.oneRecord = content := by
      simpa [Request.parse?_text] using hline
    exact (keepableContent_oneRecord archive records harchive himport).1

/-- A line that brings an archive which the store takes in is granted. -/
theorem Brings.granted {σ : Type} [Store σ] {store : σ} {now line id : String} {archive : Bytes}
    {kind : DatasetKind} {info : DatasetInfo} (h : Brings line id archive kind)
    (hadded : (Store.add store now id archive kind).result = .ok info) :
    Granted now store line := by
  obtain ⟨name, content, hline, hkind, harchive⟩ := h
  rw [Granted, respondLine, hline]
  simp only [respond, addContent, hkind, harchive, Outcome.map, add, status_ofExcept_noContent,
    mapError_eq_ok_iff]
  exact ⟨info, hadded⟩

/-- The dataset that the lines import is held after them. -/
theorem holds_importingRun :
    ∃ records, Holds Directory.empty "abc" records importingRun := by
  obtain ⟨info, hadded, -⟩ := Disk.add_oneRecord
  obtain ⟨records, himport, -⟩ := Disk.files_of_add hadded
  have hbrings : Brings (Request.add "abc" "courses" (Base64.encode Import.oneRecord)).text "abc"
      Import.oneRecord .courses :=
    ⟨_, _, Request.parse?_text _, by decide, decodeContent_encode _⟩
  have hadds : Adds "now" Directory.empty
      (Request.add "abc" "courses" (Base64.encode Import.oneRecord)).text "abc" records :=
    ⟨hbrings.granted hadded, _, _, hbrings, himport⟩
  -- the listing in front leaves the directory empty
  have hlisted : storeAfter Directory.empty [("then", Request.list.text)] = .empty := by
    rw [storeAfter, respondLine, Request.parse?_text]
    rfl
  rw [← hlisted] at hadds
  exact ⟨records, .added hadds⟩

/-- The listing after these lines shows a dataset, which a sentence reaches. -/
theorem listing_matches_queries_importingRun :
    Counted importingRun ∧ Directory.empty.folder = .empty ∧
      ∃ infos, infos ≠ [] ∧ Listed infos Directory.empty importingRun := by
  obtain ⟨infos, hlisted⟩ :=
    (listing_matches_queries importingRun).2 counted_importingRun .empty rfl
  obtain ⟨records, hholds⟩ := holds_importingRun
  have hmem := (hlisted.shows.mem_iff ⟨"abc", .courses, records.length⟩).2 ⟨records, hholds, rfl⟩
  exact ⟨counted_importingRun, rfl, infos, List.ne_nil_of_mem hmem, hlisted⟩

end CourseQuery.Service
