import CourseQuery.Proofs.Dataset.Usable
import CourseQuery.Proofs.Execution.Meaning
import CourseQuery.Proofs.Sentence.WellTyped
import CourseQuery.Service.Responding

/-!
# The library is never to blame

An internal error would say that a query which was read failed over records which were loaded. It
takes three facts to rule it out: reading a sentence yields a query whose conditions fit their
fields, a store hands out usable records only, and over such records a query of that form has an
answer. The first and the last hold of everything that is read; the second is what is carried along
a run of lines over a store in memory, while a store on disk has it whatever its files hold.
-/

set_option autoImplicit false

namespace CourseQuery.Service

open Execution (Answers run_of_complete)

/-! ## The class that a response tells -/

/-- The body of a response is an error with the code of a class. -/
def Response.Tells (r : Response) (code : ErrorCode) : Prop :=
  ∃ wording : String, r.body = .object [("error", .string s!"{code.text}: {wording}")]

/-- No code holds a colon. -/
theorem ErrorCode.text_ne_colon (code : ErrorCode) : ∀ c ∈ code.text.toList, c ≠ ':' := by
  cases code <;> simp [text]

/-- Each class has a code of its own. -/
theorem ErrorCode.text_inj {code other : ErrorCode} (h : code.text = other.text) :
    code = other := by
  cases code <;> cases other <;> simp_all [text]

/-- A text that begins with a code and a colon begins so with one code only. -/
theorem ErrorCode.eq_of_coded_eq {code other : ErrorCode} {s t : String}
    (h : s!"{code.text}: {s}" = s!"{other.text}: {t}") : code = other := by
  have hfront : ∀ (c : ErrorCode) (w : String),
      (s!"{c.text}: {w}").toList.takeWhile (· != ':') = c.text.toList := by
    intro c w
    have hsplit : (s!"{c.text}: {w}").toList = c.text.toList ++ ':' :: ' ' :: w.toList := by
      simp [String.toList_append, toString]
    rw [hsplit, List.takeWhile_append_of_pos]
    · simp
    · intro a ha
      simpa using c.text_ne_colon a ha
  apply text_inj
  apply String.toList_inj.1
  rw [← hfront code s, ← hfront other t, h]

namespace Response

variable {code : ErrorCode}

/-- The response to an error tells the class of the error. -/
theorem tells_ofError_iff {e : Error} : (ofError e).Tells code ↔ e.code = code := by
  constructor
  · rintro ⟨wording, h⟩
    simp only [ofError, Json.object.injEq, List.cons.injEq, Prod.mk.injEq, Json.string.injEq,
      true_and, and_true] at h
    exact ErrorCode.eq_of_coded_eq h
  · rintro rfl
    exact ⟨e.message, rfl⟩

/-- A response with a result tells of no error. -/
theorem not_tells_ofResult (v : Json) : ¬ (ofResult v).Tells code := by
  rintro ⟨wording, h⟩
  simp [ofResult] at h

/-- A response without content tells of no error. -/
theorem not_tells_noContent : ¬ noContent.Tells code := by
  rintro ⟨wording, h⟩
  simp [noContent] at h

/-- An outcome tells the class of the error that it is. -/
theorem tells_ofExcept {α : Type} {succeed : α → Response} {result : Except Error α}
    (hsucceed : ∀ a, ¬ (succeed a).Tells code) (h : (ofExcept succeed result).Tells code) :
    ∃ e, result = .error e ∧ e.code = code := by
  cases result with
  | ok a => exact absurd h (hsucceed a)
  | error e => exact ⟨e, rfl, tells_ofError_iff.1 h⟩

end Response

/-- A refusal of the store is the fault of the request or of the storage. -/
theorem Error.code_store_ne (e : StoreError) : (Error.store e).code ≠ .internalError := by
  cases e <;> simp [code, StoreError.isClientError]

section

variable {σ : Type} [Store σ] {store : σ}

/-! ## One request -/

/-- Over usable records the query that a sentence asks is answered. -/
theorem perform_of_usable (husable : UsableStore store) {sentence : String} {query : Query}
    {records : List Record} (hread : Sentence.read sentence = .ok query)
    (hload : Store.load store query.dataset = .ok records) :
    ∃ shown chosen, (perform store sentence).1 = .ok shown ∧
      Execution.run query records = .ok ⟨shown, records.length⟩ ∧
      Answers query records chosen shown := by
  have hrecords := husable query.dataset records hload
  obtain ⟨shown, chosen, hrun, hanswers⟩ := run_of_complete (Sentence.read_wellTyped hread)
    (fun r hr => (hrecords r hr).1) (fun r hr => (hrecords r hr).2)
  refine ⟨shown, chosen, ?_, hrun, hanswers⟩
  simp only [perform, hread, answer, hload, hrun]

/-- A query that is not answered was not read, or its dataset was not loaded. -/
theorem code_of_perform (husable : UsableStore store) {sentence : String} {e : Error}
    (h : (perform store sentence).1 = .error e) : e.code ≠ .internalError := by
  cases hread : Sentence.read sentence with
  | error rejection =>
    simp only [perform, hread, Except.error.injEq] at h
    rw [← h]
    exact nofun
  | ok query =>
    cases hload : Store.load store query.dataset with
    | error refusal =>
      simp only [perform, hread, answer, hload, Except.error.injEq] at h
      rw [← h]
      exact Error.code_store_ne refusal
    | ok records =>
      obtain ⟨shown, chosen, hanswered, -⟩ := perform_of_usable husable hread hload
      rw [hanswered] at h
      contradiction

/-- A refusal of the store stays one when it is wrapped. -/
theorem code_of_mapError {α : Type} {result : Except StoreError α} {e : Error}
    (h : result.mapError .store = .error e) : e.code ≠ .internalError := by
  obtain ⟨refusal, -, rfl⟩ := mapError_eq_error_iff.1 h
  exact Error.code_store_ne refusal

/-- An import that fails does not blame the library. -/
theorem code_of_addContent {now id kind content : String} {e : Error}
    (h : (addContent now store id kind content).result = .error e) :
    e.code ≠ .internalError := by
  unfold addContent at h
  split at h
  · rw [← Except.error.inj h]
    exact Error.code_store_ne _
  · rename_i hdecode
    rw [← Except.error.inj h]
    unfold decodeContent at hdecode
    split at hdecode
    · contradiction
    · rw [← Except.error.inj hdecode]
      exact nofun
  · exact code_of_mapError h

/-- No request is answered with an internal error over a store that hands out usable records. -/
theorem not_tells_respond (husable : UsableStore store) (now : String) (request : Request) :
    ¬ (respond now store request).result.Tells .internalError := by
  intro h
  cases request with
  | query sentence =>
    obtain ⟨e, hresult, hcode⟩ :=
      Response.tells_ofExcept (fun _ => Response.not_tells_ofResult _) h
    exact code_of_perform husable hresult hcode
  | explain sentence => exact Response.not_tells_ofResult _ h
  | add id kind content =>
    obtain ⟨e, hresult, hcode⟩ :=
      Response.tells_ofExcept (fun _ => Response.not_tells_noContent) h
    exact code_of_addContent hresult hcode
  | remove id =>
    obtain ⟨e, hresult, hcode⟩ :=
      Response.tells_ofExcept (fun _ => Response.not_tells_noContent) h
    exact code_of_mapError hresult hcode
  | list => exact Response.not_tells_ofResult _ h

/-- A service over a store is not to blame: no line is answered with an internal error, and each
sentence that is read over a dataset that is loaded gets the answer that the query means. -/
structure Blameless (store : σ) : Prop where
  response : ∀ now line : String, ¬ (respondLine now store line).result.Tells .internalError
  answered : ∀ sentence query records, Sentence.read sentence = .ok query →
    Store.load store query.dataset = .ok records →
      ∃ shown chosen, (perform store sentence).1 = .ok shown ∧
        Execution.run query records = .ok ⟨shown, records.length⟩ ∧
        Answers query records chosen shown

/-- A store that hands out usable records gives no occasion to blame the library. -/
theorem blameless_of_usable (husable : UsableStore store) : Blameless store where
  response now line h := by
    unfold respondLine at h
    split at h
    · have hcode := Response.tells_ofError_iff.1 h
      contradiction
    · exact not_tells_respond husable now _ h
  answered _ _ _ hread hload := perform_of_usable husable hread hload

/-! ## A run of lines -/

/-- The store that lines leave, each with its time and each answered over what the one before it
left. -/
def storeAfter (store : σ) : List (String × String) → σ
  | [] => store
  | (now, line) :: rest => storeAfter (respondLine now store line).store rest

end

section

variable {store : MemoryStore}

/-- Adding a dataset keeps a store in memory usable. -/
theorem usableStore_addContent (h : UsableStore store) (now id kind content : String) :
    UsableStore (addContent now store id kind content).store := by
  unfold addContent
  split
  · exact h
  · exact h
  · exact MemoryStore.usableStore_add h _ _ _

/-- Answering a line keeps a store in memory usable. -/
theorem usableStore_respondLine (h : UsableStore store) (now line : String) :
    UsableStore (respondLine now store line).store := by
  unfold respondLine
  split
  · exact h
  · rename_i request hparse
    cases request with
    | query | explain | list => exact h
    | add id kind content => exact usableStore_addContent h now id kind content
    | remove id => exact MemoryStore.usableStore_remove h id

/-- However long a run of lines is, the store in memory that it leaves hands out usable records. -/
theorem usableStore_storeAfter (h : UsableStore store) (run : List (String × String)) :
    UsableStore (storeAfter store run) := by
  induction run generalizing store with
  | nil => exact h
  | cons entry rest ih => exact ih (usableStore_respondLine h entry.1 entry.2)

end

/-- No request can bring about an internal error, neither over a directory, whatever its files hold,
nor over a store in memory that lines have built up. -/
theorem blameless_stores :
    (∀ d : Directory, Blameless d) ∧
      ∀ run : List (String × String), Blameless (storeAfter MemoryStore.empty run) := by
  constructor
  · intro d
    exact blameless_of_usable (Disk.usableStore d)
  · intro run
    exact blameless_of_usable (usableStore_storeAfter MemoryStore.usableStore_empty run)

end CourseQuery.Service
