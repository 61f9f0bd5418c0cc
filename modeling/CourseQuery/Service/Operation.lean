import CourseQuery.Dataset.Store
import CourseQuery.Sentence.Explanation
import CourseQuery.Service.Error
import CourseQuery.Trace.Scope

/-!
# The operations of the service

The service answers queries over the datasets of a store, and adds, drops and lists datasets. A
query is traced from its arrival to its answer or its rejection, an import from its beginning to
its end, and the dropping of a dataset once it is done. What is traced is returned beside the
result.
-/

set_option autoImplicit false

namespace CourseQuery.Service

/-- What comes of an operation. -/
structure Outcome (σ α : Type) where
  result : α
  store : σ
  trace : List Trace.Entry

/-- The outcome with another result. -/
def Outcome.map {σ α β : Type} (f : α → β) (o : Outcome σ α) : Outcome σ β :=
  ⟨f o.result, o.store, o.trace⟩

/-- The entry of a sentence that arrives. -/
def receivedEntry (sentence : String) : Trace.Entry :=
  Trace.Event.queryReceived.entry [("length", toString (Text.Utf8.size sentence.toList))]

/-- The entry of a sentence that is rejected. -/
def misreadEntry (r : Rejection) : Trace.Entry :=
  Trace.Event.queryRejected.entry
    [("clause", r.clause.name), ("code", r.code.text), ("reason", r.message)]

/-- The entry of a sentence that was read. -/
def parsedEntry (query : Query) : Trace.Entry :=
  Trace.Event.queryParsed.entry [("dataset", query.dataset)]

/-- The entry of a query that fails. -/
def failedEntry (query : Query) (e : Error) : Trace.Entry :=
  Trace.Event.queryRejected.entry
    [("code", e.code.text), ("dataset", query.dataset), ("reason", e.message)]

/-- The entry of a dataset that was loaded for a query. -/
def loadedEntry (query : Query) (records : List Record) : Trace.Entry :=
  Trace.Event.datasetLoaded.entry
    [("dataset", query.dataset), ("rows", toString records.length)]

/-- The entry of a query that was answered. -/
def answeredEntry (query : Query) (answer : Execution.Answer) : Trace.Entry :=
  Trace.Event.queryExecuted.entry
    [("dataset", query.dataset), ("returned", toString answer.records.length),
     ("scanned", toString answer.scanned)]

section

variable {σ : Type} [Store σ]

/-- Answers a query. -/
def answer (store : σ) (query : Query) : Except Error (List Record) × List Trace.Entry :=
  match Store.load store query.dataset with
  | .error e => (.error (.store e), [failedEntry query (.store e)])
  | .ok records =>
    match Execution.run query records with
    | .error e =>
      (.error (.execution e), [loadedEntry query records, failedEntry query (.execution e)])
    | .ok answer =>
      (.ok answer.records, [loadedEntry query records, answeredEntry query answer])

/-- Reads a sentence and answers the query that it is. -/
def perform (store : σ) (sentence : String) : Except Error (List Record) × List Trace.Entry :=
  match Sentence.read sentence with
  | .error r => (.error (.sentence r), [receivedEntry sentence, misreadEntry r])
  | .ok query =>
    let (result, trace) := answer store query
    (result, receivedEntry sentence :: parsedEntry query :: trace)

/-- The scope of an import. -/
def importScope (id : String) : Trace.Scope :=
  ⟨"IMPORT", [("dataset", id)]⟩

/-- The entry of the end of an import. -/
def importEnd (id : String) : Except StoreError DatasetInfo → Trace.Entry
  | .ok info => (importScope id).completed [("rows", toString info.rows)]
  | .error e => (importScope id).failed e.message

/-- Adds a dataset. -/
def add (now : String) (store : σ) (id : String) (archive : Bytes) (kind : DatasetKind) :
    Outcome σ (Except Error DatasetInfo) :=
  let addition := Store.add store now id archive kind
  ⟨addition.result.mapError .store, addition.store,
   (importScope id).begun :: addition.trace ++ [importEnd id addition.result]⟩

/-- The entry of a dataset that was dropped. -/
def removedEntry (id : String) : Trace.Entry :=
  Trace.Event.datasetRemoved.entry [("dataset", id)]

/-- What is traced of the dropping of a dataset. -/
def removalTrace (id : String) : Except StoreError Unit → List Trace.Entry
  | .ok () => [removedEntry id]
  | .error _ => []

/-- Drops a dataset. -/
def remove (store : σ) (id : String) : Outcome σ (Except Error Unit) :=
  let removal := Store.remove store id
  ⟨removal.result.mapError .store, removal.store, removalTrace id removal.result⟩

end

end CourseQuery.Service
