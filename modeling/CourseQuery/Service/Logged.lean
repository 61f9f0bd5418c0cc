import CourseQuery.Dataset.Logged
import CourseQuery.Service.Responding

/-!
# The service at work

The operations of the service with every entry logged where it arises, over a store that logs, and
runs of them. An operation is called with what a caller of the service has: a line, a request, a
sentence, or what an operation on datasets needs.
-/

set_option autoImplicit false

namespace CourseQuery.Service

open Trace (Logging log)

section

variable {σ : Type} [Store σ] [LoggedStore σ]

/-- Gives a query up. -/
def logReject {α : Type} (query : Query) (e : Error) : Logging (Except Error α) := do
  log (failedEntry query e)
  return .error e

/-- Reads a sentence and answers the query that it is. -/
def logPerform (store : σ) (sentence : String) : Logging (Except Error (List Record)) := do
  log (receivedEntry sentence)
  match Sentence.read sentence with
  | .error r => do
    log (misreadEntry r)
    return .error (.sentence r)
  | .ok query => do
    log (parsedEntry query)
    match Store.load store query.dataset with
    | .error e => logReject query (.store e)
    | .ok records => do
      log (loadedEntry query records)
      match Execution.run query records with
      | .error e => logReject query (.execution e)
      | .ok answer => do
        log (answeredEntry query answer)
        return .ok answer.records

/-- Adds a dataset. -/
def logAdd (now : String) (store : σ) (id : String) (archive : Bytes) (kind : DatasetKind) :
    Logging (Except Error DatasetInfo × σ) := do
  let scope ← (importScope id).enter
  let (result, store) ← LoggedStore.logAdd store now id archive kind
  let scope ← match result with
    | .ok info => scope.complete [("rows", toString info.rows)]
    | .error e => scope.fail e.message
  scope.leave
  return (result.mapError .store, store)

/-- Drops a dataset. -/
def logRemove (store : σ) (id : String) : Logging (Except Error Unit × σ) :=
  let removal := Store.remove store id
  match removal.result with
  | .error e => return (.error (.store e), removal.store)
  | .ok () => do
    log (removedEntry id)
    return (.ok (), removal.store)

/-- Adds a dataset whose kind is named and whose archive comes in base 64. -/
def logAddContent (now : String) (store : σ) (id kind content : String) :
    Logging (Except Error DatasetInfo × σ) :=
  match DatasetKind.ofName kind, decodeContent content with
  | .error e, _ => return (.error (.store e), store)
  | .ok _, .error e => return (.error e, store)
  | .ok kind, .ok archive => logAdd now store id archive kind

/-- Responds to a request. -/
def logRespond (now : String) (store : σ) : Request → Logging (Response × σ)
  | .query sentence => do
    let result ← logPerform store sentence
    return (.ofExcept .ofRecords result, store)
  | .explain sentence => return (.ofExplanation (.ofSentence sentence), store)
  | .add id kind content => do
    let (result, store) ← logAddContent now store id kind content
    return (.ofExcept (fun _ => .noContent) result, store)
  | .remove id => do
    let (result, store) ← logRemove store id
    return (.ofExcept (fun _ => .noContent) result, store)
  | .list => do
    let infos ← LoggedStore.logList store
    return (.ofInfos infos, store)

/-- Responds to a line. -/
def logRespondLine (now : String) (store : σ) (line : String) : Logging (Response × σ) :=
  match Request.parse? line with
  | none => return (.ofError .request, store)
  | some request => logRespond now store request

/-- What the service is called to do. -/
inductive Call where
  | line (line : String)
  | request (request : Request)
  | perform (sentence : String)
  | explain (sentence : String)
  | add (id : String) (archive : Bytes) (kind : DatasetKind)
  | remove (id : String)
  | list

/-- What a caller gets back. -/
inductive Reply where
  | response (response : Response)
  | records (result : Except Error (List Record))
  | explanation (explanation : Explanation)
  | added (result : Except Error DatasetInfo)
  | removed (result : Except Error Unit)
  | infos (infos : List DatasetInfo)

/-- Does what a call says, at a time. -/
def logCall (now : String) (store : σ) : Call → Logging (Reply × σ)
  | .line line => do
    let (response, store) ← logRespondLine now store line
    return (.response response, store)
  | .request request => do
    let (response, store) ← logRespond now store request
    return (.response response, store)
  | .perform sentence => do
    let result ← logPerform store sentence
    return (.records result, store)
  | .explain sentence => return (.explanation (.ofSentence sentence), store)
  | .add id archive kind => do
    let (result, store) ← logAdd now store id archive kind
    return (.added result, store)
  | .remove id => do
    let (result, store) ← logRemove store id
    return (.removed result, store)
  | .list => do
    let infos ← LoggedStore.logList store
    return (.infos infos, store)

/-- Does what calls say, each at its time and over the store that the one before it left. -/
def logCalls (store : σ) : List (String × Call) → Logging (List Reply × σ)
  | [] => return ([], store)
  | (now, call) :: calls => do
    let (reply, store) ← logCall now store call
    let (replies, store) ← logCalls store calls
    return (reply :: replies, store)

end

end CourseQuery.Service
