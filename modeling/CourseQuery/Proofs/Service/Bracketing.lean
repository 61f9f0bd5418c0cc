import CourseQuery.Proofs.Dataset.Stray
import CourseQuery.Proofs.Import.Accounting
import CourseQuery.Proofs.Service.Holdings
import CourseQuery.Proofs.Service.Observation
import CourseQuery.Proofs.Trace.Reports

/-!
# The log of a run is bracketed

With every entry let through, the log of a run of lines is that of its lines, one after the other,
and the log of a line fits its response. A query is received, and then rejected or read, loaded and
answered; it is rejected in the log exactly when its response is an error. An import begins and
ends, and in between are only the rows that it left out; its end tells whether it was granted, and
how many rows it stored. A dataset that is dropped is logged, and one that a listing cannot read.
Nothing else is logged, and nothing is left without an end.
-/

set_option autoImplicit false

namespace CourseQuery.Service

open Trace (Reports LineOf)

/-! ## What lines say -/

/-- A response to a request that failed. -/
def Response.Fails (r : Response) : Prop :=
  400 ≤ r.status

/-- The lines of a query: it is received, and then rejected, unless it is read; read, and then
rejected, unless its dataset is loaded; loaded, and then rejected, unless it is answered. -/
inductive QueryLog (response : Response) : List String → Prop
  | misread {begun rejected : String} (hbegun : Reports begun "QUERY_BEGIN" [])
      (hrejected : Reports rejected "QUERY_REJECTED" []) (hfails : response.Fails) :
      QueryLog response [begun, rejected]
  | unloaded {begun parsed rejected : String} (hbegun : Reports begun "QUERY_BEGIN" [])
      (hparsed : Reports parsed "QUERY_PARSED" [])
      (hrejected : Reports rejected "QUERY_REJECTED" []) (hfails : response.Fails) :
      QueryLog response [begun, parsed, rejected]
  | failed {begun parsed loaded rejected : String} (hbegun : Reports begun "QUERY_BEGIN" [])
      (hparsed : Reports parsed "QUERY_PARSED" []) (hloaded : Reports loaded "DATASET_LOADED" [])
      (hrejected : Reports rejected "QUERY_REJECTED" []) (hfails : response.Fails) :
      QueryLog response [begun, parsed, loaded, rejected]
  | answered {begun parsed loaded complete : String} {records : List Record}
      (hbegun : Reports begun "QUERY_BEGIN" []) (hparsed : Reports parsed "QUERY_PARSED" [])
      (hloaded : Reports loaded "DATASET_LOADED" [])
      (hcomplete : Reports complete "QUERY_COMPLETE" [("returned", toString records.length)])
      (hresponse : response = .ofRecords records) :
      QueryLog response [begun, parsed, loaded, complete]

section

variable {σ : Type} [Store σ]

/-- The lines of an import: it begins, rows are left out, and it ends. It is complete when it is
granted, with as many rows as the archive has records and as are loaded from the store afterwards,
unless there are more than can be counted there. -/
inductive ImportLog (after : σ) (response : Response) (id : String) (archive : Bytes)
    (kind : DatasetKind) : List String → Prop
  | complete {begun ended : String} {skipped : List String} {records : List Record}
      (hbegun : Reports begun "IMPORT_BEGIN" [("dataset", id)])
      (hskipped : ∀ line ∈ skipped, Reports line "IMPORT_ROW_SKIPPED" [])
      (hended : Reports ended "IMPORT_COMPLETE"
        [("dataset", id), ("rows", toString records.length)])
      (hgranted : response.status = 204)
      (himport : (Import.ofArchive archive kind).1 = .ok records)
      (hstored : records.length < UInt64.size →
        ∃ loaded, Store.load after id = .ok loaded ∧ loaded.length = records.length) :
      ImportLog after response id archive kind (begun :: skipped ++ [ended])
  | failed {begun ended : String} {skipped : List String}
      (hbegun : Reports begun "IMPORT_BEGIN" [("dataset", id)])
      (hskipped : ∀ line ∈ skipped, Reports line "IMPORT_ROW_SKIPPED" [])
      (hended : Reports ended "IMPORT_FAILED" [("dataset", id)]) (hfails : response.Fails) :
      ImportLog after response id archive kind (begun :: skipped ++ [ended])

/-- The lines of a request fit its response and the store that it leaves. -/
inductive RequestLog (after : σ) (response : Response) : Option Request → List String → Prop
  | unparseable : RequestLog after response none []
  | query {sentence : String} {lines : List String} (hlines : QueryLog response lines)
      (hrejected : (∃ line ∈ lines, Reports line "QUERY_REJECTED" []) ↔ response.Fails) :
      RequestLog after response (some (.query sentence)) lines
  | explain {sentence : String} : RequestLog after response (some (.explain sentence)) []
  | refused {id kind content : String}
      (hrefused : ∀ named archive,
        ¬ (DatasetKind.ofName kind = .ok named ∧ decodeContent content = .ok archive)) :
      RequestLog after response (some (.add id kind content)) []
  | add {id kind content : String} {named : DatasetKind} {archive : Bytes} {lines : List String}
      (hkind : DatasetKind.ofName kind = .ok named) (hcontent : decodeContent content = .ok archive)
      (hlines : ImportLog after response id archive named lines) :
      RequestLog after response (some (.add id kind content)) lines
  | removed {id line : String} (hgranted : response.status = 204)
      (hline : Reports line "DATASET_REMOVED" [("dataset", id)]) :
      RequestLog after response (some (.remove id)) [line]
  | unremoved {id : String} (hrefused : response.status ≠ 204) :
      RequestLog after response (some (.remove id)) []
  | list {lines : List String} (hlines : ∀ line ∈ lines, Reports line "DATASET_UNREADABLE" []) :
      RequestLog after response (some .list) lines

/-- The log of a run is that of its lines one after the other, each with its reply and over the
store that the line before it left. -/
inductive RunLog : σ → List (String × String) → List Reply → List String → Prop
  | nil {store : σ} : RunLog store [] [] []
  | cons {store : σ} {now line : String} {rest : List (String × String)} {replies : List Reply}
      {lines more : List String}
      (hline : RequestLog (respondLine now store line).store (respondLine now store line).result
        (Request.parse? line) lines)
      (hrest : RunLog (respondLine now store line).store rest replies more) :
      RunLog store ((now, line) :: rest) (.response (respondLine now store line).result :: replies)
        (lines ++ more)

end

/-! ## Queries -/

/-- The response to an error is one of failure. -/
theorem fails_ofError (e : Error) : (Response.ofError e).Fails := by
  have hcode : ∀ code : ErrorCode, 400 ≤ code.status := by
    intro code
    cases code <;> decide
  exact hcode e.code

/-- A response with a result is none of failure. -/
theorem not_fails_ofResult (v : Json) : ¬ (Response.ofResult v).Fails :=
  show ¬ 400 ≤ 200 by decide

/-- A query is rejected in the log exactly when its response is an error. -/
theorem QueryLog.rejected_iff {response : Response} {lines : List String}
    (h : QueryLog response lines) :
    (∃ line ∈ lines, Reports line "QUERY_REJECTED" []) ↔ response.Fails := by
  cases h with
  | misread _ hrejected hfails | unloaded _ _ hrejected hfails | failed _ _ _ hrejected hfails =>
    exact iff_of_true ⟨_, by simp, hrejected⟩ hfails
  | answered hbegun hparsed hloaded hcomplete hresponse =>
    refine iff_of_false ?_ (hresponse ▸ not_fails_ofResult _)
    rintro ⟨line, hmem, hrejected⟩
    simp only [List.mem_cons, List.not_mem_nil, or_false] at hmem
    rcases hmem with rfl | rfl | rfl | rfl
    · exact absurd (hbegun.event_eq hrejected) (by decide)
    · exact absurd (hparsed.event_eq hrejected) (by decide)
    · exact absurd (hloaded.event_eq hrejected) (by decide)
    · exact absurd (hcomplete.event_eq hrejected) (by decide)

section

variable {σ : Type} [Store σ] {store : σ}

/-- The line of an answered query reports how many records it returned. -/
theorem reports_returned {line : String} {query : Query} {answer : Execution.Answer}
    (h : LineOf line (answeredEntry query answer)) :
    Reports line "QUERY_COMPLETE" [("returned", toString answer.records.length)] := by
  refine h.reports fun elapsed => ?_
  simp [answeredEntry, Trace.Event.entry, Trace.Entry.timedFields, Text.ofKey]

/-- The lines of a query fit its response. -/
theorem queryLog_of_lines {sentence : String} {lines : List String}
    (h : List.Forall₂ LineOf lines (respondQuery store sentence).trace) :
    QueryLog (respondQuery store sentence).result lines := by
  simp only [respondQuery, perform] at h ⊢
  cases hread : Sentence.read sentence with
  | error r =>
    simp only [hread] at h ⊢
    obtain _ | ⟨hbegun, _ | ⟨hrejected, _ | _⟩⟩ := h
    exact .misread hbegun.reports_event hrejected.reports_event (fails_ofError _)
  | ok query =>
    simp only [hread, answer] at h ⊢
    cases hload : Store.load store query.dataset with
    | error e =>
      simp only [hload] at h ⊢
      obtain _ | ⟨hbegun, _ | ⟨hparsed, _ | ⟨hrejected, _ | _⟩⟩⟩ := h
      exact .unloaded hbegun.reports_event hparsed.reports_event hrejected.reports_event
        (fails_ofError _)
    | ok records =>
      simp only [hload] at h ⊢
      cases hrun : Execution.run query records with
      | error e =>
        simp only [hrun] at h ⊢
        obtain _ | ⟨hbegun, _ | ⟨hparsed, _ | ⟨hloaded, _ | ⟨hrejected, _ | _⟩⟩⟩⟩ := h
        exact .failed hbegun.reports_event hparsed.reports_event hloaded.reports_event
          hrejected.reports_event (fails_ofError _)
      | ok answer =>
        simp only [hrun] at h ⊢
        obtain _ | ⟨hbegun, _ | ⟨hparsed, _ | ⟨hloaded, _ | ⟨hcomplete, _ | _⟩⟩⟩⟩ := h
        exact .answered hbegun.reports_event hparsed.reports_event hloaded.reports_event
          (reports_returned hcomplete) rfl

end

/-! ## Stores -/

/-- An import of an archive traces no more than the rows that it leaves out. -/
theorem event_of_mem_import {archive : Bytes} {kind : DatasetKind} {e : Trace.Entry}
    (h : e ∈ (Import.ofArchive archive kind).2) : e.event = "IMPORT_ROW_SKIPPED" := by
  unfold Import.ofArchive at h
  split at h
  · split at h
    · exact absurd h List.not_mem_nil
    · obtain ⟨path, number, fault, rfl⟩ := Import.mem_skipped h
      rfl
  · exact absurd h List.not_mem_nil

/-- What a store traces is what happened: an import traces the rows that it leaves out, and what it
says that it stored is what is loaded afterwards; a listing traces what it cannot read. -/
structure Sincere (σ : Type) [Store σ] : Prop where
  skipped : ∀ (s : σ) (now id : String) (archive : Bytes) (kind : DatasetKind),
    ∀ e ∈ (Store.add s now id archive kind).trace, e.event = "IMPORT_ROW_SKIPPED"
  stored : ∀ {s : σ} {now id : String} {archive : Bytes} {kind : DatasetKind} {info : DatasetInfo},
    (Store.add s now id archive kind).result = .ok info →
      ∃ records, (Import.ofArchive archive kind).1 = .ok records ∧ info.rows = records.length ∧
        (records.length < UInt64.size → ∃ loaded,
          Store.load (Store.add s now id archive kind).store id = .ok loaded ∧
            loaded.length = records.length)
  unreadable : ∀ s : σ, ∀ e ∈ (Store.list s).trace, e.event = "DATASET_UNREADABLE"

/-- A store in memory traces of an addition what the import traces, if it comes to one. -/
theorem mem_trace_add_memory {s : MemoryStore} {id : String} {archive : Bytes} {kind : DatasetKind}
    {e : Trace.Entry} (h : e ∈ (s.add id archive kind).trace) :
    e ∈ (Import.ofArchive archive kind).2 := by
  unfold MemoryStore.add at h
  cases hobstacle : s.obstacle? id with
  | some error =>
    simp only [hobstacle] at h
    exact absurd h List.not_mem_nil
  | none =>
    simp only [hobstacle] at h
    generalize Import.ofArchive archive kind = imported at h ⊢
    obtain ⟨result, trace⟩ := imported
    cases result with
    | error fault => exact h
    | ok records => exact h

/-- So does a store on disk. -/
theorem mem_trace_add_disk {d : Directory} {now id : String} {archive : Bytes} {kind : DatasetKind}
    {e : Trace.Entry} (h : e ∈ (Disk.add d now id archive kind).trace) :
    e ∈ (Import.ofArchive archive kind).2 := by
  unfold Disk.add at h
  cases hobstacle : Disk.obstacle? d id with
  | some error =>
    simp only [hobstacle] at h
    exact absurd h List.not_mem_nil
  | none =>
    simp only [hobstacle] at h
    generalize Import.ofArchive archive kind = imported at h ⊢
    obtain ⟨result, trace⟩ := imported
    cases result with
    | error fault => exact h
    | ok records => exact h

/-- The store in memory traces what it does. -/
theorem sincere_memory : Sincere MemoryStore where
  skipped _ _ _ _ _ _ he := event_of_mem_import (mem_trace_add_memory he)
  stored := by
    intro s now id archive kind info h
    rcases s.add_cases id archive kind with
      ⟨⟨error, herror⟩, -⟩ | ⟨records, -, -, -, himport, hresult, hstore⟩
    · have hclash := h.symm.trans herror
      contradiction
    · obtain rfl := Except.ok.inj (h.symm.trans hresult)
      refine ⟨records, himport, rfl, fun _ => ⟨records, ?_, rfl⟩⟩
      have hfound : (s.put id ⟨.courses, records⟩).datasets.find? id = some ⟨.courses, records⟩ :=
        (Catalog.find?_insert s.datasets).trans (if_pos rfl)
      have hload : (s.add id archive kind).store.load id = .ok records := by
        rw [hstore, MemoryStore.load, hfound]
      exact hload
  unreadable _ _ he := absurd he List.not_mem_nil

/-- The store on disk traces what it does. -/
theorem sincere_disk : Sincere Directory where
  skipped _ _ _ _ _ _ he := event_of_mem_import (mem_trace_add_disk he)
  stored := by
    intro d now id archive kind info h
    obtain ⟨records, himport, hinfo, -⟩ := Disk.files_of_add h
    refine ⟨records, himport, congrArg DatasetInfo.rows hinfo, fun hcounted => ?_⟩
    exact ⟨_, Disk.load_add h himport hcounted, List.length_map _⟩
  unreadable := by
    intro d e he
    obtain ⟨⟨name, file⟩, -, hentry⟩ := List.mem_filterMap.1 he
    rw [Disk.unreadable?, Option.ite_none_right_eq_some] at hentry
    obtain ⟨-, hentry⟩ := hentry
    cases hread : Disk.readManifest file with
    | ok m =>
      rw [hread] at hentry
      contradiction
    | error error =>
      rw [hread] at hentry
      rw [← Option.some.inj hentry]
      rfl

/-! ## Imports -/

section

variable {σ : Type} [Store σ] {store : σ} {id : String}

/-- The line of the beginning of an import reports it. -/
theorem reports_begun {line : String} (h : LineOf line (importScope id).begun) :
    Reports line "IMPORT_BEGIN" [("dataset", id)] := by
  refine h.reports fun elapsed => ?_
  simp [importScope, Trace.Scope.begun, Trace.Entry.timedFields, Text.ofKey]

/-- The line of the end of an import reports it with its rows. -/
theorem reports_importEnd {line : String} {info : DatasetInfo}
    (h : LineOf line (importEnd id (.ok info))) :
    Reports line "IMPORT_COMPLETE" [("dataset", id), ("rows", toString info.rows)] := by
  refine h.reports fun elapsed => ?_
  simp [importEnd, importScope, Trace.Scope.completed, Trace.Entry.timedFields, Text.ofKey]

/-- The line of the end of a failed import reports the failure. -/
theorem reports_importFailed {line : String} {error : StoreError}
    (h : LineOf line (importEnd id (.error error))) :
    Reports line "IMPORT_FAILED" [("dataset", id)] := by
  refine h.reports fun elapsed => ?_
  simp [importEnd, importScope, Trace.Scope.failed, Trace.Entry.timedFields, Text.ofKey]

/-- The line of a dropped dataset reports it. -/
theorem reports_removed {line : String} (h : LineOf line (removedEntry id)) :
    Reports line "DATASET_REMOVED" [("dataset", id)] := by
  refine h.reports fun elapsed => ?_
  simp [removedEntry, Trace.Event.entry, Trace.Entry.timedFields, Text.ofKey]

/-- The lines of an import fit its response. -/
theorem importLog_of_lines (hsincere : Sincere σ) {now : String} {archive : Bytes}
    {kind : DatasetKind} {lines : List String}
    (h : List.Forall₂ LineOf lines (add now store id archive kind).trace) :
    ImportLog (add now store id archive kind).store
      (.ofExcept (fun _ => .noContent) (add now store id archive kind).result) id archive kind
      lines := by
  obtain _ | ⟨hbegun, hrest⟩ := h
  obtain ⟨skipped, last, rfl, hskipped, hlast⟩ := Trace.exists_append_of_forall₂ hrest
  have hleft := Trace.reports_of_forall₂ hskipped (hsincere.skipped store now id archive kind)
  obtain _ | ⟨hended, _ | _⟩ := hlast
  cases hresult : (Store.add store now id archive kind).result with
  | error error =>
    rw [hresult] at hended
    simp only [add, hresult]
    exact .failed (reports_begun hbegun) hleft (reports_importFailed hended) (fails_ofError _)
  | ok info =>
    obtain ⟨records, himport, hrows, hstored⟩ := hsincere.stored hresult
    rw [hresult] at hended
    have hreports := reports_importEnd hended
    rw [hrows] at hreports
    simp only [add, hresult]
    exact .complete (reports_begun hbegun) hleft hreports rfl himport hstored

/-! ## Requests -/

/-- The lines of a request to add a dataset fit its response. -/
theorem requestLog_add (hsincere : Sincere σ) {now kind content : String} {lines : List String}
    (h : List.Forall₂ LineOf lines (addContent now store id kind content).trace) :
    RequestLog (addContent now store id kind content).store
      (.ofExcept (fun _ => .noContent) (addContent now store id kind content).result)
      (some (.add id kind content)) lines := by
  unfold addContent at h ⊢
  cases hkind : DatasetKind.ofName kind with
  | error e =>
    simp only [hkind] at h ⊢
    obtain _ | _ := h
    exact .refused fun named archive hvalid => absurd (hkind.symm.trans hvalid.1) nofun
  | ok named =>
    cases hcontent : decodeContent content with
    | error e =>
      simp only [hkind, hcontent] at h ⊢
      obtain _ | _ := h
      exact .refused fun named archive hvalid => absurd (hcontent.symm.trans hvalid.2) nofun
    | ok archive =>
      simp only [hkind, hcontent] at h ⊢
      exact .add hkind hcontent (importLog_of_lines hsincere h)

/-- The lines of a request to drop a dataset fit its response. -/
theorem requestLog_remove {lines : List String}
    (h : List.Forall₂ LineOf lines (respondRemove store id).trace) :
    RequestLog (respondRemove store id).store (respondRemove store id).result (some (.remove id))
      lines := by
  cases hresult : (Store.remove store id).result with
  | error e =>
    simp only [respondRemove, remove, Outcome.map, removalTrace, hresult] at h ⊢
    obtain _ | _ := h
    exact .unremoved (Error.status_ne_noContent _)
  | ok _ =>
    simp only [respondRemove, remove, Outcome.map, removalTrace, hresult] at h ⊢
    obtain _ | ⟨hline, _ | _⟩ := h
    exact .removed rfl (reports_removed hline)

/-- The lines of a line fit its response. -/
theorem requestLog_of_lines (hsincere : Sincere σ) {now line : String} {lines : List String}
    (h : List.Forall₂ LineOf lines (respondLine now store line).trace) :
    RequestLog (respondLine now store line).store (respondLine now store line).result
      (Request.parse? line) lines := by
  unfold respondLine at h ⊢
  generalize Request.parse? line = parsed at h ⊢
  cases parsed with
  | none =>
    obtain _ | _ := h
    exact .unparseable
  | some request =>
    cases request with
    | query sentence =>
      have hlog := queryLog_of_lines h
      exact .query hlog hlog.rejected_iff
    | explain sentence =>
      obtain _ | _ := h
      exact .explain
    | add id kind content => exact requestLog_add hsincere h
    | remove id => exact requestLog_remove h
    | list => exact .list (Trace.reports_of_forall₂ h (hsincere.unreadable store))

end

/-! ## Runs -/

/-- A run of lines as calls of the service. -/
def lineCalls (run : List (String × String)) : List (String × Call) :=
  run.map fun entry => (entry.1, .line entry.2)

section

variable {σ : Type} [Store σ]

/-- The log of a run is that of its lines. -/
theorem runLog_of_lines (hsincere : Sincere σ) {store : σ} {run : List (String × String)}
    {lines : List String}
    (h : List.Forall₂ LineOf lines (callOutcomes store (lineCalls run)).trace) :
    RunLog store run (callOutcomes store (lineCalls run)).result lines := by
  induction run generalizing store lines with
  | nil =>
    obtain _ | _ := h
    exact .nil
  | cons entry rest ih =>
    obtain ⟨front, back, rfl, hfront, hback⟩ := Trace.exists_append_of_forall₂ h
    exact .cons (requestLog_of_lines hsincere hfront) (ih hback)

/-- The events of requests. -/
def requestEvents : List String :=
  ["QUERY_BEGIN", "QUERY_PARSED", "DATASET_LOADED", "QUERY_COMPLETE", "QUERY_REJECTED",
   "IMPORT_BEGIN", "IMPORT_ROW_SKIPPED", "IMPORT_COMPLETE", "IMPORT_FAILED", "DATASET_REMOVED",
   "DATASET_UNREADABLE"]

/-- A line reports one of the events of requests. -/
def Ordinary (line : String) : Prop :=
  ∃ event ∈ requestEvents, Reports line event []

/-- No event of a request is that of a scope without an end. -/
theorem ne_incomplete {event : String} (h : event ∈ requestEvents) (name : String) :
    event ≠ name ++ "_INCOMPLETE" := by
  rintro rfl
  have hnone : requestEvents.all
      (fun event => !"_INCOMPLETE".toList.isSuffixOf event.toList) = true := by decide
  have hends := List.all_eq_true.1 hnone _ h
  rw [String.toList_append, Bool.not_eq_true', ← Bool.not_eq_true,
    List.isSuffixOf_iff_suffix] at hends
  exact hends (List.suffix_append _ _)

/-- A line that reports one of the events of a request is ordinary. -/
theorem ordinary_of_reports {line event : String} {fields : List (String × String)}
    (h : Reports line event fields) (hevent : event ∈ requestEvents) : Ordinary line :=
  ⟨event, hevent, h.plain⟩

/-- Every line of a query is ordinary. -/
theorem QueryLog.ordinary {response : Response} {lines : List String}
    (h : QueryLog response lines) : ∀ line ∈ lines, Ordinary line := by
  have hnone : ∀ line ∈ ([] : List String), Ordinary line := nofun
  cases h with
  | misread hbegun hrejected =>
    exact List.forall_mem_cons.2 ⟨ordinary_of_reports hbegun (by decide),
      List.forall_mem_cons.2 ⟨ordinary_of_reports hrejected (by decide), hnone⟩⟩
  | unloaded hbegun hparsed hrejected =>
    exact List.forall_mem_cons.2 ⟨ordinary_of_reports hbegun (by decide),
      List.forall_mem_cons.2 ⟨ordinary_of_reports hparsed (by decide),
        List.forall_mem_cons.2 ⟨ordinary_of_reports hrejected (by decide), hnone⟩⟩⟩
  | failed hbegun hparsed hloaded hlast | answered hbegun hparsed hloaded hlast =>
    exact List.forall_mem_cons.2 ⟨ordinary_of_reports hbegun (by decide),
      List.forall_mem_cons.2 ⟨ordinary_of_reports hparsed (by decide),
        List.forall_mem_cons.2 ⟨ordinary_of_reports hloaded (by decide),
          List.forall_mem_cons.2 ⟨ordinary_of_reports hlast (by decide), hnone⟩⟩⟩⟩

/-- Every line of an import is ordinary. -/
theorem ImportLog.ordinary {after : σ} {response : Response} {id : String} {archive : Bytes}
    {kind : DatasetKind} {lines : List String}
    (h : ImportLog after response id archive kind lines) : ∀ line ∈ lines, Ordinary line := by
  cases h with
  | complete hbegun hskipped hended | failed hbegun hskipped hended =>
    rw [List.cons_append, List.forall_mem_cons, List.forall_mem_append, List.forall_mem_singleton]
    exact ⟨ordinary_of_reports hbegun (by decide),
      fun line hline => ordinary_of_reports (hskipped line hline) (by decide),
      ordinary_of_reports hended (by decide)⟩

/-- Every line of a request is ordinary. -/
theorem RequestLog.ordinary {after : σ} {response : Response} {request : Option Request}
    {lines : List String} (h : RequestLog after response request lines) :
    ∀ line ∈ lines, Ordinary line := by
  cases h with
  | unparseable | explain | refused | unremoved => exact nofun
  | query hlines => exact hlines.ordinary
  | add _ _ hlines => exact hlines.ordinary
  | removed _ hline => exact List.forall_mem_singleton.2 (ordinary_of_reports hline (by decide))
  | list hlines => exact fun line hline => ordinary_of_reports (hlines line hline) (by decide)

/-- Every line of a run is ordinary. -/
theorem RunLog.ordinary {store : σ} {run : List (String × String)} {replies : List Reply}
    {lines : List String} (h : RunLog store run replies lines) : ∀ line ∈ lines, Ordinary line := by
  induction h with
  | nil => exact nofun
  | cons hline _ ih => exact List.forall_mem_append.2 ⟨hline.ordinary, ih⟩

/-- What is seen of a run of lines is bracketed: its log is that of the lines, which fit the
replies, and no line tells that something was left without an end. -/
structure Bracketed (store : σ) (run : List (String × String)) (sight : Sight σ) : Prop where
  log : RunLog store run sight.replies sight.lines
  ended : ∀ line ∈ sight.lines, ∀ name, ¬ Reports line (name ++ "_INCOMPLETE") []

/-- Over a sincere store that logs what it traces, the log of a run of lines is bracketed. -/
theorem bracketed_observe [LoggedStore σ] (hfaithful : Faithful σ) (hsincere : Sincere σ)
    (stopwatch : Nat → Nat) (store : σ) (run : List (String × String)) :
    Bracketed store run (observe .trace stopwatch store (lineCalls run)) := by
  have henabled : ∀ e ∈ (callOutcomes store (lineCalls run)).trace,
      (Trace.Logger.start .trace stopwatch).threshold.enabled e.severity = true :=
    fun e _ => e.severity.enabled_trace
  obtain ⟨lines, hwritten, hlines⟩ := Trace.Logger.exists_written_record henabled
  have hlog := runLog_of_lines hsincere hlines
  rw [observe_eq hfaithful, hwritten]
  refine ⟨hlog, fun line hline name hreports => ?_⟩
  obtain ⟨event, hevent, hordinary⟩ := hlog.ordinary line hline
  exact ne_incomplete hevent name (hordinary.event_eq hreports)

end

/-- Whatever lines come, at whatever times and over whatever store, in memory or on disk: with every
entry let through, the log of the run is bracketed and fits the replies. -/
theorem traces_bracketed (stopwatch : Nat → Nat) (run : List (String × String)) :
    (∀ s : MemoryStore, Bracketed s run (observe .trace stopwatch s (lineCalls run))) ∧
      ∀ d : Directory, Bracketed d run (observe .trace stopwatch d (lineCalls run)) :=
  ⟨fun s => bracketed_observe faithful_memory sincere_memory stopwatch s run,
    fun d => bracketed_observe faithful_disk sincere_disk stopwatch d run⟩

end CourseQuery.Service
