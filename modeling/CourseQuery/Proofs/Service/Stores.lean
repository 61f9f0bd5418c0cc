import CourseQuery.Proofs.Base64
import CourseQuery.Proofs.Dataset.Mirror
import CourseQuery.Proofs.Execution.Stored
import CourseQuery.Proofs.Service.Request
import CourseQuery.Service.Responding

/-!
# Both stores answer alike

A service over a store on disk and one over a store in memory give the same responses to the same
lines. `Disk.Mirrors` is the invariant: it holds of the empty stores, each request has the same
response in both stores, and it leaves stores for which the invariant holds again. What is loaded
from disk differs from what is in memory in the sign of a zero, which no response shows.

A store on disk is its directory, so a store that is opened again is the same store.
-/

set_option autoImplicit false

namespace CourseQuery.Service

open Disk (Mirrors)

section

variable {σ : Type} [Store σ]

/-- The texts of the responses to lines with their times, each line being answered over the store
that the one before it left. -/
def responses (store : σ) : List (String × String) → List String
  | [] => []
  | (now, line) :: rest =>
    let outcome := respondLine now store line
    outcome.result.text :: responses outcome.store rest

end

/-- The content of an import whose records are read back from disk: there are fewer than 2^64 of
them, and their numbers that are not stored as integers are read back. -/
def KeepableContent (content : String) : Prop :=
  ∀ archive records, decodeContent content = .ok archive →
    (Import.ofArchive archive .courses).1 = .ok records →
      records.length < UInt64.size ∧ ∀ r ∈ records, r.ReadsBack

variable {s : MemoryStore} {d : Directory}

/-! ## The operations -/

/-- The same query is answered with the same records, read back. -/
theorem answer_mirrors (h : Mirrors s d) (query : Query) :
    (answer d query).1 = (answer s query).1.map (List.map Record.stored) := by
  have hload : Store.load d query.dataset =
      (Store.load s query.dataset).map (List.map Record.stored) := h.load query.dataset
  unfold answer
  rw [hload]
  cases Store.load s query.dataset with
  | error e => rfl
  | ok records =>
    simp only [Except.map, Execution.run_stored]
    cases Execution.run query records <;> rfl

/-- A query over a directory gives the records of the query in memory as they are stored. -/
theorem perform_mirrors (h : Mirrors s d) (sentence : String) :
    (perform d sentence).1 = (perform s sentence).1.map (List.map Record.stored) := by
  unfold perform
  cases Sentence.read sentence with
  | error r => rfl
  | ok query => exact answer_mirrors h query

/-- No response shows the sign of a zero. -/
theorem ofRecords_stored (records : List Record) :
    Response.ofRecords (records.map Record.stored) = Response.ofRecords records := by
  simp [Response.ofRecords, Function.comp_def]

/-- A query over a directory and in memory has the same response. -/
theorem respondQuery_mirrors (h : Mirrors s d) (sentence : String) :
    (respondQuery d sentence).result = (respondQuery s sentence).result := by
  have hperform := perform_mirrors h sentence
  simp only [respondQuery, hperform]
  cases (perform s sentence).1 with
  | error e => rfl
  | ok records => exact ofRecords_stored records

/-- An import of a content that can be kept, under an id that can be kept, has the same result. -/
theorem addContent_mirrors (h : Mirrors s d) (now : String) {id content : String} (kind : String)
    (hid : KeepableId id) (hcontent : KeepableContent content) :
    (addContent now d id kind content).result = (addContent now s id kind content).result ∧
      Mirrors (addContent now s id kind content).store
        (addContent now d id kind content).store := by
  unfold addContent
  cases DatasetKind.ofName kind with
  | error e => exact ⟨rfl, h⟩
  | ok kind =>
    cases hdecode : decodeContent content with
    | error e => exact ⟨rfl, h⟩
    | ok archive =>
      have hkeep : ∀ records, (Import.ofArchive archive kind).1 = .ok records →
          KeepableRecords records := by
        intro records himport
        obtain ⟨rfl, -⟩ := Import.ofArchive_complete himport
        exact .of_import himport (hcontent archive records hdecode himport)
      obtain ⟨hresult, hmirrors⟩ := h.add now hid hkeep
      exact ⟨congrArg (Except.mapError Error.store) hresult, hmirrors⟩

/-! ## A line -/

/-- Every request that is no import, or an import that can be kept, has the same response in both
stores and leaves a directory that mirrors the store. -/
theorem respond_mirrors (h : Mirrors s d) (now : String) (request : Request)
    (hkeep : ∀ id kind content, request = .add id kind content →
      KeepableId id ∧ KeepableContent content) :
    (respond now d request).result = (respond now s request).result ∧
      Mirrors (respond now s request).store (respond now d request).store := by
  cases request with
  | query sentence => exact ⟨respondQuery_mirrors h sentence, h⟩
  | explain sentence => exact ⟨rfl, h⟩
  | add id kind content =>
    obtain ⟨hid, hcontent⟩ := hkeep id kind content rfl
    obtain ⟨hresult, hmirrors⟩ := addContent_mirrors h now kind hid hcontent
    exact ⟨congrArg (Response.ofExcept fun _ => .noContent) hresult, hmirrors⟩
  | remove id =>
    obtain ⟨hresult, hmirrors⟩ := h.remove id
    exact ⟨congrArg (fun result => Response.ofExcept (fun _ => .noContent)
      (Except.mapError Error.store result)) hresult, hmirrors⟩
  | list => exact ⟨congrArg Response.ofInfos h.list, h⟩

/-- A line over a directory and in memory has the same response, and the directory mirrors the store
again. -/
theorem respondLine_mirrors (h : Mirrors s d) (now : String) {line : String}
    (hkeep : ∀ id kind content, Request.parse? line = some (.add id kind content) →
      KeepableId id ∧ KeepableContent content) :
    (respondLine now d line).result = (respondLine now s line).result ∧
      Mirrors (respondLine now s line).store (respondLine now d line).store := by
  unfold respondLine
  cases hparse : Request.parse? line with
  | none => exact ⟨rfl, h⟩
  | some request =>
    refine respond_mirrors h now request fun id kind content heq => hkeep id kind content ?_
    rw [hparse, heq]

/-! ## A run -/

/-- Over a directory that mirrors a store in memory every run of lines has the responses that it has
over that store. -/
theorem responses_mirrors (h : Mirrors s d) {run : List (String × String)}
    (hkeep : ∀ entry ∈ run, ∀ id kind content,
      Request.parse? entry.2 = some (.add id kind content) →
        KeepableId id ∧ KeepableContent content) :
    responses d run = responses s run := by
  induction run generalizing s d with
  | nil => rfl
  | cons entry rest ih =>
    obtain ⟨now, line⟩ := entry
    obtain ⟨hresult, hmirrors⟩ :=
      respondLine_mirrors h now (hkeep (now, line) List.mem_cons_self)
    have hrest := ih hmirrors fun e he => hkeep e (List.mem_cons_of_mem _ he)
    simp only [responses, hresult, hrest]

/-- Whatever lines come, at whatever times, an empty store on disk and an empty store in memory
answer them with the same texts, when every dataset is added under an id that is path safe, holds
no NUL and has at most 241 bytes, and the numbers that are stored as they are can be read back. -/
theorem responses_empty_eq (run : List (String × String))
    (hids : ∀ entry ∈ run, ∀ id kind content,
      Request.parse? entry.2 = some (.add id kind content) → KeepableId id)
    (hcontents : ∀ entry ∈ run, ∀ id kind content,
      Request.parse? entry.2 = some (.add id kind content) → KeepableContent content) :
    responses Directory.empty run = responses MemoryStore.empty run :=
  responses_mirrors Disk.mirrors_empty fun entry hentry id kind content hparse =>
    ⟨hids entry hentry id kind content hparse, hcontents entry hentry id kind content hparse⟩

/-! ## A run of lines -/

/-- Lines that list, import a dataset twice, query it, list again, drop it and make no sense. -/
def sampleRun : List (String × String) :=
  [("1", Request.list.text),
   ("2", (Request.add "abc" "courses" (Base64.encode Import.oneRecord)).text),
   ("3", (Request.add "abc" "courses" (Base64.encode Import.oneRecord)).text),
   ("4", (Request.query "In courses dataset abc, find all entries; show Average, and Title.").text),
   ("5", Request.list.text), ("6", (Request.remove "abc").text), ("7", "list")]

/-- Three letters are an id that can be kept. -/
theorem keepableId_abc : KeepableId "abc" := by
  constructor <;> decide

/-- An archive of one record can be kept. -/
theorem keepableContent_oneRecord : KeepableContent (Base64.encode Import.oneRecord) := by
  intro archive records harchive himport
  rw [decodeContent_encode] at harchive
  obtain rfl : Import.oneRecord = archive := Except.ok.inj harchive
  exact Import.keepable_oneRecord himport

/-- The run adds one archive under one id. -/
theorem adds_sampleRun {entry : String × String} (hentry : entry ∈ sampleRun)
    {id kind content : String} (hparse : Request.parse? entry.2 = some (.add id kind content)) :
    id = "abc" ∧ content = Base64.encode Import.oneRecord := by
  have hnone : Request.parse? "list" = none := by decide +kernel
  simp only [sampleRun, List.mem_cons, List.not_mem_nil, or_false] at hentry
  rcases hentry with rfl | rfl | rfl | rfl | rfl | rfl | rfl
  · simp [Request.parse?_text] at hparse
  · simp [Request.parse?_text] at hparse
    exact ⟨hparse.1.symm, hparse.2.2.symm⟩
  · simp [Request.parse?_text] at hparse
    exact ⟨hparse.1.symm, hparse.2.2.symm⟩
  · simp [Request.parse?_text] at hparse
  · simp [Request.parse?_text] at hparse
  · simp [Request.parse?_text] at hparse
  · simp [hnone] at hparse

/-- The run has the same responses over a directory and in memory. -/
theorem responses_sampleRun :
    (∀ entry ∈ sampleRun, ∀ id kind content,
      Request.parse? entry.2 = some (.add id kind content) →
        KeepableId id ∧ KeepableContent content) ∧
      responses Directory.empty sampleRun = responses MemoryStore.empty sampleRun := by
  have hids : ∀ entry ∈ sampleRun, ∀ id kind content,
      Request.parse? entry.2 = some (.add id kind content) → KeepableId id := by
    intro entry hentry id kind content hparse
    rw [(adds_sampleRun hentry hparse).1]
    exact keepableId_abc
  have hcontents : ∀ entry ∈ sampleRun, ∀ id kind content,
      Request.parse? entry.2 = some (.add id kind content) → KeepableContent content := by
    intro entry hentry id kind content hparse
    rw [(adds_sampleRun hentry hparse).2]
    exact keepableContent_oneRecord
  exact ⟨fun entry hentry id kind content hparse => ⟨hids entry hentry id kind content hparse,
    hcontents entry hentry id kind content hparse⟩, responses_empty_eq sampleRun hids hcontents⟩

end CourseQuery.Service
