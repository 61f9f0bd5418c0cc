import CourseQuery.Proofs.Import.Records
import CourseQuery.Proofs.Service.Blame
import Mathlib.Data.List.Induction
import Mathlib.Logic.Function.Basic

/-!
# What a run of lines holds

A line changes a store in one of two ways, and says so by its status: a request to add a dataset or
to drop one that is *granted* is answered without content, and every other line leaves the store as
it was. So what a store holds after a run can be told from the lines and their responses alone: the
records of each dataset that was added and was not dropped since. This is `Holds`.

A store *tracks* what is held when its operations change it as lines should. Then what it holds
after a run from an empty beginning is what the run holds.
-/

set_option autoImplicit false

namespace CourseQuery.Service

/-- No error is answered as a request that is granted. -/
theorem Error.status_ne_noContent (e : Error) : e.status ≠ 204 := by
  unfold status
  cases e.code <;> decide

/-- No result is answered as a request that is granted. -/
theorem status_ofResult_ne (v : Json) : (Response.ofResult v).status ≠ 204 := by
  simp [Response.ofResult]

/-- A response to a request without a result is one without content exactly when it succeeds. -/
theorem status_ofExcept_noContent {α : Type} (result : Except Error α) :
    (Response.ofExcept (fun _ => .noContent) result).status = 204 ↔ ∃ a, result = .ok a := by
  cases result with
  | ok a => simp [Response.ofExcept, Response.noContent]
  | error e => simp [Response.ofExcept, Response.ofError, e.status_ne_noContent]

/-- A line asks for an archive of a kind to be added under an id. -/
def Brings (line id : String) (archive : Bytes) (kind : DatasetKind) : Prop :=
  ∃ name content, Request.parse? line = some (.add id name content) ∧
    DatasetKind.ofName name = .ok kind ∧ decodeContent content = .ok archive

/-- A line asks for the dataset under an id to be dropped. -/
def Drops (line id : String) : Prop :=
  Request.parse? line = some (.remove id)

/-- A line brings one archive of one kind for one id. -/
theorem Brings.unique {line id other : String} {archive archive' : Bytes}
    {kind kind' : DatasetKind} (h : Brings line id archive kind)
    (h' : Brings line other archive' kind') : id = other ∧ archive = archive' ∧ kind = kind' := by
  obtain ⟨name, content, hline, hkind, harchive⟩ := h
  obtain ⟨name', content', hline', hkind', harchive'⟩ := h'
  obtain ⟨rfl, rfl, rfl⟩ := Request.add.inj (Option.some.inj (hline.symm.trans hline'))
  exact ⟨rfl, Except.ok.inj (harchive.symm.trans harchive'),
    Except.ok.inj (hkind.symm.trans hkind')⟩

/-- A line drops the dataset of one id. -/
theorem Drops.unique {line id other : String} (h : Drops line id) (h' : Drops line other) :
    id = other :=
  Request.remove.inj (Option.some.inj (h.symm.trans h'))

/-- A line that brings an archive drops nothing. -/
theorem Brings.not_drops {line id other : String} {archive : Bytes} {kind : DatasetKind}
    (h : Brings line id archive kind) : ¬ Drops line other := by
  rintro hdrops
  obtain ⟨name, content, hline, -⟩ := h
  have heq := hline.symm.trans hdrops
  simp at heq

section

variable {σ : Type} [Store σ]

/-! ## One line -/

/-- A line is granted when it is answered with neither a result nor an error. -/
def Granted (now : String) (store : σ) (line : String) : Prop :=
  (respondLine now store line).result.status = 204

/-- A line that is granted brings records for an id. -/
def Adds (now : String) (store : σ) (line id : String) (records : List Record) : Prop :=
  Granted now store line ∧ ∃ archive kind, Brings line id archive kind ∧
    (Import.ofArchive archive kind).1 = .ok records

/-- A line that is granted drops the dataset under an id. -/
def Frees (now : String) (store : σ) (line id : String) : Prop :=
  Granted now store line ∧ Drops line id

/-- A line is not granted and changes nothing, or it adds or drops a dataset as the store does, and
is granted when the store does not refuse. -/
theorem respondLine_cases (now : String) (store : σ) (line : String) :
    (¬ Granted now store line ∧ (respondLine now store line).store = store) ∨
      (∃ id archive kind, Brings line id archive kind ∧
        (respondLine now store line).store = (Store.add store now id archive kind).store ∧
        (Granted now store line ↔
          ∃ info, (Store.add store now id archive kind).result = .ok info)) ∨
      ∃ id, Drops line id ∧
        (respondLine now store line).store = (Store.remove store id).store ∧
        (Granted now store line ↔ (Store.remove store id).result = .ok ()) := by
  unfold Granted
  cases hparse : Request.parse? line with
  | none =>
    have hrespond : respondLine now store line = ⟨.ofError .request, store, []⟩ := by
      simp only [respondLine, hparse]
    rw [hrespond]
    exact Or.inl ⟨Error.request.status_ne_noContent, rfl⟩
  | some request =>
    have hrespond : respondLine now store line = respond now store request := by
      simp only [respondLine, hparse]
    rw [hrespond]
    cases request with
    | query sentence =>
      refine Or.inl ⟨?_, rfl⟩
      simp only [respond, respondQuery]
      cases (perform store sentence).1 with
      | ok records => exact status_ofResult_ne _
      | error e => exact e.status_ne_noContent
    | explain sentence => exact Or.inl ⟨status_ofResult_ne _, rfl⟩
    | list => exact Or.inl ⟨status_ofResult_ne _, rfl⟩
    | remove id =>
      refine Or.inr (Or.inr ⟨id, hparse, rfl, ?_⟩)
      simp only [respond, respondRemove, remove, Outcome.map, status_ofExcept_noContent,
        mapError_eq_ok_iff]
      exact ⟨fun ⟨_, h⟩ => h, fun h => ⟨(), h⟩⟩
    | add id name content =>
      simp only [respond, addContent, Outcome.map]
      cases hkind : DatasetKind.ofName name with
      | error e => exact Or.inl ⟨(Error.store e).status_ne_noContent, rfl⟩
      | ok kind =>
        cases harchive : decodeContent content with
        | error e => exact Or.inl ⟨e.status_ne_noContent, rfl⟩
        | ok archive =>
          refine Or.inr (Or.inl ⟨id, archive, kind, ⟨name, content, hparse, hkind, harchive⟩,
            rfl, ?_⟩)
          simp only [add, status_ofExcept_noContent, mapError_eq_ok_iff]

/-! ## A run of lines -/

/-- One more line is answered over what the run before it left. -/
theorem storeAfter_snoc (store : σ) (run : List (String × String)) (now line : String) :
    storeAfter store (run ++ [(now, line)]) =
      (respondLine now (storeAfter store run) line).store := by
  induction run generalizing store with
  | nil => rfl
  | cons entry rest ih => exact ih _

/-- A run of lines added records under an id and did not drop them since. -/
inductive Holds (start : σ) (id : String) (records : List Record) :
    List (String × String) → Prop
  | added {run : List (String × String)} {now line : String}
    (adds : Adds now (storeAfter start run) line id records) :
    Holds start id records (run ++ [(now, line)])
  | kept {run : List (String × String)} {now line : String}
    (before : Holds start id records run)
    (frees : ¬ Frees now (storeAfter start run) line id) :
    Holds start id records (run ++ [(now, line)])

/-- After one more line a run holds what the line adds, and what it held and the line does not drop.
-/
theorem Holds.snoc_iff {start : σ} {id : String} {records : List Record}
    {run : List (String × String)} {now line : String} :
    Holds start id records (run ++ [(now, line)]) ↔
      Adds now (storeAfter start run) line id records ∨
        Holds start id records run ∧ ¬ Frees now (storeAfter start run) line id := by
  constructor
  · intro h
    generalize hwhole : run ++ [(now, line)] = whole at h
    cases h with
    | added adds =>
      obtain ⟨rfl, hentry⟩ := List.append_inj' hwhole rfl
      obtain ⟨rfl, rfl⟩ := Prod.mk.inj (List.singleton_inj.1 hentry)
      exact Or.inl adds
    | kept before frees =>
      obtain ⟨rfl, hentry⟩ := List.append_inj' hwhole rfl
      obtain ⟨rfl, rfl⟩ := Prod.mk.inj (List.singleton_inj.1 hentry)
      exact Or.inr ⟨before, frees⟩
  · rintro (hadds | ⟨hbefore, hfrees⟩)
    · exact .added hadds
    · exact .kept hbefore hfrees

/-- The empty run holds nothing. -/
theorem not_holds_nil {start : σ} {id : String} {records : List Record} :
    ¬ Holds start id records [] := by
  intro h
  generalize hwhole : ([] : List (String × String)) = whole at h
  cases h with
  | added => simp at hwhole
  | kept => simp at hwhole

section

variable {start : σ} {run : List (String × String)} {now line id other : String}
  {records found : List Record}

/-- A line that is not granted changes nothing of what a run holds. -/
theorem holds_snoc_of_refused (h : ¬ Granted now (storeAfter start run) line) :
    Holds start id records (run ++ [(now, line)]) ↔ Holds start id records run := by
  rw [Holds.snoc_iff]
  exact ⟨fun hafter => hafter.elim (fun hadds => absurd hadds.1 h) And.left,
    fun hbefore => Or.inr ⟨hbefore, fun hfrees => h hfrees.1⟩⟩

/-- A line that adds records changes what a run holds by these. -/
theorem holds_snoc_of_adds (h : Adds now (storeAfter start run) line id records) :
    Holds start other found (run ++ [(now, line)]) ↔
      other = id ∧ found = records ∨ Holds start other found run := by
  obtain ⟨hgranted, archive, kind, hbrings, himport⟩ := h
  have hfrees : ¬ Frees now (storeAfter start run) line other :=
    fun hfrees => hbrings.not_drops hfrees.2
  rw [Holds.snoc_iff, and_iff_left hfrees]
  refine or_congr_left ⟨?_, ?_⟩
  · rintro ⟨-, archive', kind', hbrings', himport'⟩
    obtain ⟨rfl, rfl, rfl⟩ := hbrings.unique hbrings'
    exact ⟨rfl, Except.ok.inj (himport'.symm.trans himport)⟩
  · rintro ⟨rfl, rfl⟩
    exact ⟨hgranted, archive, kind, hbrings, himport⟩

/-- A line that drops a dataset changes what a run holds by this. -/
theorem holds_snoc_of_frees (h : Frees now (storeAfter start run) line id) :
    Holds start other found (run ++ [(now, line)]) ↔
      other ≠ id ∧ Holds start other found run := by
  obtain ⟨hgranted, hdrops⟩ := h
  have hadds : ¬ Adds now (storeAfter start run) line other found := by
    rintro ⟨-, archive, kind, hbrings, -⟩
    exact hbrings.not_drops hdrops
  have hfrees : Frees now (storeAfter start run) line other ↔ other = id :=
    ⟨fun hfrees => hfrees.2.unique hdrops, fun hother => ⟨hgranted, hother ▸ hdrops⟩⟩
  rw [Holds.snoc_iff, or_iff_right hadds, hfrees, and_comm]

end

/-- What a run holds was brought by one of its lines. -/
theorem Holds.brought {start : σ} {id : String} {records : List Record}
    {run : List (String × String)} (h : Holds start id records run) :
    ∃ entry ∈ run, ∃ archive kind, Brings entry.2 id archive kind ∧
      (Import.ofArchive archive kind).1 = .ok records := by
  induction h with
  | added adds => exact ⟨_, List.mem_append_right _ (List.mem_singleton_self _), adds.2⟩
  | kept before frees ih =>
    obtain ⟨entry, hentry, hbrings⟩ := ih
    exact ⟨entry, List.mem_append_left _ hentry, hbrings⟩

/-! ## Stores that track what is held -/

/-- A relation between what is held and stores that every operation keeps: an import that succeeds
makes its records held under an id that was free, a removal that succeeds frees the id, and what
fails changes nothing that is held. -/
structure Tracks (rel : (String → Option (List Record)) → σ → Prop) : Prop where
  add : ∀ {held store} (now id : String) (archive : Bytes) (kind : DatasetKind), rel held store →
    ((∃ error, (Store.add store now id archive kind).result = .error error) ∧
        rel held (Store.add store now id archive kind).store) ∨
      ∃ info records, (Store.add store now id archive kind).result = .ok info ∧
        (Import.ofArchive archive kind).1 = .ok records ∧ held id = none ∧
        rel (Function.update held id (some records)) (Store.add store now id archive kind).store
  remove : ∀ {held store} (id : String), rel held store →
    ((∃ error, (Store.remove store id).result = .error error) ∧
        rel held (Store.remove store id).store) ∨
      (Store.remove store id).result = .ok () ∧
        rel (Function.update held id none) (Store.remove store id).store

/-- What a store that tracks it holds after a run from nothing is what the run holds. -/
theorem Tracks.after_run {rel : (String → Option (List Record)) → σ → Prop} (h : Tracks rel)
    {start : σ} (hstart : rel (fun _ => none) start) (run : List (String × String)) :
    ∃ held, rel held (storeAfter start run) ∧
      ∀ id records, held id = some records ↔ Holds start id records run := by
  induction run using List.reverseRecOn with
  | nil => exact ⟨fun _ => none, hstart, fun id records => by simp [not_holds_nil]⟩
  | append_singleton run entry ih =>
    obtain ⟨now, line⟩ := entry
    obtain ⟨held, hrel, hheld⟩ := ih
    rw [storeAfter_snoc]
    rcases respondLine_cases now (storeAfter start run) line with
      ⟨hrefused, hstore⟩ | ⟨id, archive, kind, hbrings, hstore, hgranted⟩ |
        ⟨id, hdrops, hstore, hgranted⟩
    · rw [hstore]
      refine ⟨held, hrel, fun other found => ?_⟩
      rw [holds_snoc_of_refused hrefused, hheld]
    · rw [hstore]
      rcases h.add now id archive kind hrel with
        ⟨⟨error, herror⟩, hrel'⟩ | ⟨info, records, hresult, himport, hfree, hrel'⟩
      · refine ⟨held, hrel', fun other found => ?_⟩
        have hrefused : ¬ Granted now (storeAfter start run) line := by
          rw [hgranted, herror]
          exact nofun
        rw [holds_snoc_of_refused hrefused, hheld]
      · refine ⟨_, hrel', fun other found => ?_⟩
        rw [holds_snoc_of_adds ⟨hgranted.2 ⟨info, hresult⟩, archive, kind, hbrings, himport⟩,
          ← hheld, Function.update_apply]
        split
        · rename_i hother
          rw [hother, hfree]
          simp [eq_comm]
        · rename_i hother
          simp [hother]
    · rw [hstore]
      rcases h.remove id hrel with ⟨⟨error, herror⟩, hrel'⟩ | ⟨hresult, hrel'⟩
      · refine ⟨held, hrel', fun other found => ?_⟩
        have hrefused : ¬ Granted now (storeAfter start run) line := by
          rw [hgranted, herror]
          exact nofun
        rw [holds_snoc_of_refused hrefused, hheld]
      · refine ⟨_, hrel', fun other found => ?_⟩
        rw [holds_snoc_of_frees ⟨hgranted.2 hresult, hdrops⟩, ← hheld, Function.update_apply]
        split
        · rename_i hother
          simp [hother]
        · rename_i hother
          simp [hother]

/-- A listing shows what a run holds: each dataset once, in the order of the ids, with the number of
its records. -/
structure Shows (infos : List DatasetInfo) (start : σ) (run : List (String × String)) : Prop where
  sorted : infos.Pairwise fun a b => a.id < b.id
  mem_iff : ∀ info, info ∈ infos ↔ ∃ records, Holds start info.id records run ∧
    info = ⟨info.id, .courses, records.length⟩

end

end CourseQuery.Service
