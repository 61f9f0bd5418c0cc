import CourseQuery.Proofs.Dataset.Logged
import CourseQuery.Service.Logged

/-!
# Observing the service changes nothing

The service logs what it traces: each operation, with its entries logged as they arise and its
scopes left as they may be, has the result of the operation and logs its trace. So a run of calls
has the same replies and leaves the same store whatever the threshold and the times are, and the
lines that a higher threshold lets through are found among those of a lower one by their severity.
-/

set_option autoImplicit false

namespace CourseQuery.Service

open Trace

/-! ## Calls without a logger -/

section

variable {σ : Type} [Store σ]

/-- What comes of a call, at a time. -/
def callOutcome (now : String) (store : σ) : Call → Outcome σ Reply
  | .line line => (respondLine now store line).map .response
  | .request request => (respond now store request).map .response
  | .perform sentence =>
    let (result, trace) := perform store sentence
    ⟨.records result, store, trace⟩
  | .explain sentence => ⟨.explanation (.ofSentence sentence), store, []⟩
  | .add id archive kind => (add now store id archive kind).map .added
  | .remove id => (remove store id).map .removed
  | .list =>
    let listing := Store.list store
    ⟨.infos listing.infos, store, listing.trace⟩

/-- What comes of calls, each at its time and over the store that the one before it left. -/
def callOutcomes (store : σ) : List (String × Call) → Outcome σ (List Reply)
  | [] => ⟨[], store, []⟩
  | (now, call) :: calls =>
    let outcome := callOutcome now store call
    let rest := callOutcomes outcome.store calls
    ⟨outcome.result :: rest.result, rest.store, outcome.trace ++ rest.trace⟩

end

/-! ## Calls log their traces -/

/-- Work over a store has an outcome: its result and store, and its trace is logged. -/
def LogsOutcome {σ α : Type} (work : Logging (α × σ)) (o : Outcome σ α) : Prop :=
  Logs work (o.result, o.store) o.trace

/-- What is done with the result of an operation logs nothing more. -/
theorem LogsOutcome.map {σ α β : Type} {work : Logging (α × σ)} {o : Outcome σ α}
    (h : LogsOutcome work o) (f : α → β) :
    LogsOutcome (do let (a, store) ← work; return (f a, store)) (o.map f) :=
  Logs.andThen h (Logs.pure (f o.result, o.store))

section

variable {σ : Type} [Store σ]

/-- The rejection of a query logs its entry. -/
theorem logs_logReject {α : Type} (query : Query) (e : Error) :
    Logs (logReject query e) (.error e : Except Error α) [failedEntry query e] :=
  Logs.cons (Logs.pure _)

/-- A query logs what is traced of it. -/
theorem logs_logPerform (store : σ) (sentence : String) :
    Logs (logPerform store sentence) (perform store sentence).1 (perform store sentence).2 := by
  unfold logPerform perform answer
  cases Sentence.read sentence with
  | error r => exact Logs.cons (Logs.cons (Logs.pure _))
  | ok query =>
    dsimp only
    cases Store.load store query.dataset with
    | error e => exact Logs.cons (Logs.cons (logs_logReject query _))
    | ok records =>
      dsimp only
      cases Execution.run query records with
      | error e => exact Logs.cons (Logs.cons (Logs.cons (logs_logReject query _)))
      | ok answer => exact Logs.cons (Logs.cons (Logs.cons (Logs.cons (Logs.pure _))))

/-- The dropping of a dataset logs what is traced of it. -/
theorem logs_logRemove (store : σ) (id : String) :
    LogsOutcome (logRemove store id) (remove store id) := by
  unfold logRemove remove LogsOutcome
  dsimp only
  cases (Store.remove store id).result with
  | error e => exact Logs.pure _
  | ok _ => exact Logs.cons (Logs.pure _)

variable [LoggedStore σ]

/-- An import logs what is traced of it. -/
theorem logs_logAdd (h : Faithful σ) (now : String) (store : σ) (id : String) (archive : Bytes)
    (kind : DatasetKind) :
    LogsOutcome (logAdd now store id archive kind) (add now store id archive kind) := by
  have hadd := h.add store now id archive kind
  unfold logAdd add LogsOutcome
  dsimp only
  generalize Store.add store now id archive kind = addition at hadd
  obtain ⟨result, store, trace⟩ := addition
  -- either end closes the scope, so leaving it logs nothing more
  cases result with
  | ok info =>
    exact (logs_enter _).bind (hadd.bind ((logs_complete _ _).bind
      ((logs_leave _).bind (Logs.pure _))))
  | error e =>
    exact (logs_enter _).bind (hadd.bind ((logs_fail _ _).bind
      ((logs_leave _).bind (Logs.pure _))))

/-- A request that adds a dataset logs what is traced of it. -/
theorem logs_logAddContent (h : Faithful σ) (now : String) (store : σ) (id kind content : String) :
    LogsOutcome (logAddContent now store id kind content)
      (addContent now store id kind content) := by
  unfold logAddContent addContent
  cases DatasetKind.ofName kind with
  | error e => exact Logs.pure _
  | ok kind =>
    cases decodeContent content with
    | error e => exact Logs.pure _
    | ok archive => exact logs_logAdd h now store id archive kind

/-- Answering a request logs what is traced of it. -/
theorem logs_logRespond (h : Faithful σ) (now : String) (store : σ) (request : Request) :
    LogsOutcome (logRespond now store request) (respond now store request) := by
  cases request with
  | query sentence => exact (logs_logPerform store sentence).andThen (Logs.pure _)
  | explain sentence => exact Logs.pure _
  | add id kind content => exact (logs_logAddContent h now store id kind content).map _
  | remove id => exact (logs_logRemove store id).map _
  | list => exact (h.list store).andThen (Logs.pure _)

/-- Answering a line logs what is traced of it. -/
theorem logs_logRespondLine (h : Faithful σ) (now : String) (store : σ) (line : String) :
    LogsOutcome (logRespondLine now store line) (respondLine now store line) := by
  unfold logRespondLine respondLine
  cases Request.parse? line with
  | none => exact Logs.pure _
  | some request => exact logs_logRespond h now store request

/-- A call logs its trace and does nothing else than it does without a logger. -/
theorem logs_logCall (h : Faithful σ) (now : String) (store : σ) (call : Call) :
    LogsOutcome (logCall now store call) (callOutcome now store call) := by
  cases call with
  | line line => exact (logs_logRespondLine h now store line).map _
  | request request => exact (logs_logRespond h now store request).map _
  | perform sentence => exact (logs_logPerform store sentence).andThen (Logs.pure _)
  | explain sentence => exact Logs.pure _
  | add id archive kind => exact (logs_logAdd h now store id archive kind).map _
  | remove id => exact (logs_logRemove store id).map _
  | list => exact (h.list store).andThen (Logs.pure _)

/-- So do calls one after the other. -/
theorem logs_logCalls (h : Faithful σ) (store : σ) (calls : List (String × Call)) :
    LogsOutcome (logCalls store calls) (callOutcomes store calls) := by
  induction calls generalizing store with
  | nil => exact Logs.pure _
  | cons call calls ih =>
    obtain ⟨now, call⟩ := call
    exact (logs_logCall h now store call).bind ((ih _).andThen (Logs.pure _))

end

/-! ## Two thresholds -/

/-- What is seen of a run of calls. -/
structure Sight (σ : Type) where
  replies : List Reply
  store : σ
  /-- The lines that are written, without their ends. -/
  lines : List String

/-- What is seen of calls over a store, logged under a threshold from the beginning. -/
def observe {σ : Type} [Store σ] [LoggedStore σ] (threshold : Severity) (stopwatch : Nat → Nat)
    (store : σ) (calls : List (String × Call)) : Sight σ :=
  let ((replies, store), logger) := ((logCalls store calls).run (.start threshold stopwatch)).run
  ⟨replies, store, logger.written⟩

/-- Two runs are seen to be the same but for a threshold: they have the same replies and leave the
same store, and the lines of the second are those lines of the first whose severity reaches the
threshold, in order, apart from the times that they tell. -/
structure Sight.Narrowed {σ : Type} (threshold : Severity) (a b : Sight σ) : Prop where
  replies : b.replies = a.replies
  store : b.store = a.store
  lines : List.Forall₂ SameButTime (a.lines.filter (reaches threshold)) b.lines

/-- A run of calls is seen to have the outcome that it has without a logger. -/
theorem observe_eq {σ : Type} [Store σ] [LoggedStore σ] (h : Faithful σ) (threshold : Severity)
    (stopwatch : Nat → Nat) (store : σ) (calls : List (String × Call)) :
    observe threshold stopwatch store calls =
      ⟨(callOutcomes store calls).result, (callOutcomes store calls).store,
        ((Logger.start threshold stopwatch).record (callOutcomes store calls).trace).written⟩ := by
  rw [observe, logs_logCalls h store calls]

/-- With a stopwatch that always shows one time, the lines that are seen are those of the trace. -/
theorem lines_observe {σ : Type} [Store σ] [LoggedStore σ] (h : Faithful σ) (threshold : Severity)
    (elapsed : Nat) (store : σ) (calls : List (String × Call)) :
    (observe threshold (fun _ => elapsed) store calls).lines =
      Entry.lines threshold elapsed (callOutcomes store calls).trace := by
  rw [observe_eq h]
  exact Logger.written_record (fun _ => rfl) _

/-- Over a store that logs what it traces, a higher threshold narrows what is seen. -/
theorem narrowed_observe {σ : Type} [Store σ] [LoggedStore σ] (h : Faithful σ)
    {threshold higher : Severity} (hrank : threshold.rank ≤ higher.rank)
    (stopwatch stopwatch' : Nat → Nat) (store : σ) (calls : List (String × Call)) :
    (observe threshold stopwatch store calls).Narrowed higher
      (observe higher stopwatch' store calls) := by
  have hstart : (Logger.start threshold stopwatch).Filters (.start higher stopwatch') := .nil
  have hfilters := hstart.record hrank (callOutcomes store calls).trace
  rw [Logger.Filters, Logger.threshold_record] at hfilters
  rw [observe_eq h, observe_eq h]
  exact ⟨rfl, rfl, hfilters⟩

/-- Observing is read-only, over a store in memory and over one on disk, for any calls: a higher
threshold only narrows what is seen. -/
theorem observing_reads_only {threshold higher : Severity} (hrank : threshold.rank ≤ higher.rank)
    (stopwatch stopwatch' : Nat → Nat) (calls : List (String × Call)) :
    (∀ s : MemoryStore, (observe threshold stopwatch s calls).Narrowed higher
      (observe higher stopwatch' s calls)) ∧
    ∀ d : Directory, (observe threshold stopwatch d calls).Narrowed higher
      (observe higher stopwatch' d calls) :=
  ⟨fun s => narrowed_observe faithful_memory hrank stopwatch stopwatch' s calls,
    fun d => narrowed_observe faithful_disk hrank stopwatch stopwatch' d calls⟩

/-- A sentence that cannot be read, and an import of nothing. -/
def refusedCalls : List (String × Call) :=
  [("2024-01-01T00:00:00Z", .perform "show Title"),
    ("2024-01-01T00:00:01Z", .add "abc" [] .courses)]

/-- Calls that are refused are answered alike at either threshold, and the higher one leaves out
lines. -/
theorem observing_refusedCalls :
    Severity.trace.rank ≤ Severity.warn.rank ∧
      (observe .trace (fun _ => 0) MemoryStore.empty refusedCalls).Narrowed .warn
        (observe .warn (fun _ => 1) MemoryStore.empty refusedCalls) ∧
      (observe .trace (fun _ => 0) Directory.empty refusedCalls).Narrowed .warn
        (observe .warn (fun _ => 1) Directory.empty refusedCalls) ∧
      (observe .trace (fun _ => 0) Directory.empty refusedCalls).lines.length = 4 ∧
      (observe .warn (fun _ => 1) Directory.empty refusedCalls).lines.length = 2 := by
  have hrank : Severity.trace.rank ≤ Severity.warn.rank := by decide
  obtain ⟨hmemory, hdisk⟩ := observing_reads_only hrank (fun _ => 0) (fun _ => 1) refusedCalls
  exact ⟨hrank, hmemory _, hdisk _, by decide +kernel, by decide +kernel⟩

end CourseQuery.Service
