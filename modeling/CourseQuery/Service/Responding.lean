import CourseQuery.Service.Operation
import CourseQuery.Service.Request
import CourseQuery.Service.Response

/-!
# Responding to requests

Every line gets one response, whether it is a request or not. A run of lines is answered one after
the other, each over the store that the one before it left, until the lines end or cannot be read.
-/

set_option autoImplicit false

namespace CourseQuery.Service

section

variable {σ : Type} [Store σ]

/-- Refuses a request without doing anything. -/
def refuse {α : Type} (store : σ) (e : Error) : Outcome σ (Except Error α) :=
  ⟨.error e, store, []⟩

/-- Adds a dataset whose kind is named. -/
def addNamed (now : String) (store : σ) (id kind : String) (archive : Bytes) :
    Outcome σ (Except Error DatasetInfo) :=
  match DatasetKind.ofName kind with
  | .error e => refuse store (.store e)
  | .ok kind => add now store id archive kind

/-- Adds a dataset whose kind is named and whose archive comes in base 64. -/
def addContent (now : String) (store : σ) (id kind content : String) :
    Outcome σ (Except Error DatasetInfo) :=
  match DatasetKind.ofName kind, decodeContent content with
  | .error e, _ => refuse store (.store e)
  | .ok _, .error e => refuse store e
  | .ok kind, .ok archive => add now store id archive kind

/-- The response to a query. -/
def respondQuery (store : σ) (sentence : String) : Outcome σ Response :=
  let (result, trace) := perform store sentence
  ⟨.ofExcept .ofRecords result, store, trace⟩

/-- The response to a request for an explanation. -/
def respondExplain (store : σ) (sentence : String) : Outcome σ Response :=
  ⟨.ofExplanation (.ofSentence sentence), store, []⟩

/-- The response to the dropping of a dataset. -/
def respondRemove (store : σ) (id : String) : Outcome σ Response :=
  (remove store id).map (.ofExcept fun _ => .noContent)

/-- The response to a request for the listing. -/
def respondList (store : σ) : Outcome σ Response :=
  let listing := Store.list store
  ⟨.ofInfos listing.infos, store, listing.trace⟩

/-- The response to a request. -/
def respond (now : String) (store : σ) : Request → Outcome σ Response
  | .query sentence => respondQuery store sentence
  | .explain sentence => respondExplain store sentence
  | .add id kind content =>
    (addContent now store id kind content).map (.ofExcept fun _ => .noContent)
  | .remove id => respondRemove store id
  | .list => respondList store

/-- The response to a line. -/
def respondLine (now : String) (store : σ) (line : String) : Outcome σ Response :=
  match Request.parse? line with
  | none => ⟨.ofError .request, store, []⟩
  | some request => respond now store request

/-- What comes of a run of lines that could be cut short by a failure. -/
structure Session (σ ε : Type) where
  /-- The lines of the responses, without their ends. -/
  lines : List String
  store : σ
  trace : List Trace.Entry
  failure : Option ε

/-- Answers lines in order, each at its time, up to the first that could not be read. -/
def serve {ε : Type} (store : σ) : List (Except ε (String × String)) → Session σ ε
  | [] => ⟨[], store, [], none⟩
  | .error failure :: _ => ⟨[], store, [], some failure⟩
  | .ok (now, line) :: rest =>
    let outcome := respondLine now store line
    let session := serve outcome.store rest
    ⟨outcome.result.text :: session.lines, session.store, outcome.trace ++ session.trace,
     session.failure⟩

end

end CourseQuery.Service
