import CourseQuery.Dataset.Error
import CourseQuery.Execution
import CourseQuery.Sentence.Rejection

/-!
# Why the service refuses

Whatever goes wrong below the service is wrapped, and the code of the wrapped error is kept as the
cause. The class that a caller sees says who is to blame: the request, the storage, or the library
itself.
-/

set_option autoImplicit false

namespace CourseQuery.Service

/-- How grave an error is. -/
inductive Gravity where
  /-- The request is to blame. -/
  | reject
  | error
  /-- The library breaks its own rules. -/
  | fatal
deriving DecidableEq, Repr

/-- The name of a gravity. -/
def Gravity.name : Gravity → String
  | reject => "REJECT"
  | error => "ERROR"
  | fatal => "FATAL"

/-- The classes of errors. -/
inductive ErrorCode where
  | malformedQuery
  | datasetNotFound
  | importError
  | invalidRequest
  | storageError
  | internalError
deriving DecidableEq, Repr

namespace ErrorCode

/-- Every class. -/
def all : List ErrorCode :=
  [malformedQuery, datasetNotFound, importError, invalidRequest, storageError, internalError]

/-- The code of a class. -/
def text : ErrorCode → String
  | malformedQuery => "MALFORMED_QUERY"
  | datasetNotFound => "DATASET_NOT_FOUND"
  | importError => "IMPORT_ERROR"
  | invalidRequest => "INVALID_REQUEST"
  | storageError => "STORAGE_ERROR"
  | internalError => "INTERNAL_ERROR"

/-- The status of a response to a request that fails with an error of a class. -/
def status : ErrorCode → Nat
  | malformedQuery | importError | invalidRequest => 400
  | datasetNotFound => 404
  | storageError | internalError => 500

/-- How grave the errors of a class are. -/
def gravity : ErrorCode → Gravity
  | storageError => .error
  | internalError => .fatal
  | malformedQuery | datasetNotFound | importError | invalidRequest => .reject

end ErrorCode

/-- Why the service refuses. -/
inductive Error where
  | sentence (rejection : Rejection)
  | store (error : StoreError)
  | execution (error : Execution.Error)
  /-- A line that is no request. -/
  | request
  /-- The content of a request that is not base 64. -/
  | content
  /-- An error in the words of the caller. -/
  | stated (code : ErrorCode) (reason : String)
deriving DecidableEq, Repr

namespace Error

/-- The class of an error. -/
def code : Error → ErrorCode
  | sentence _ => .malformedQuery
  | store (.notFound _) => .datasetNotFound
  | store e => if e.isClientError then .importError else .storageError
  | execution _ => .internalError
  | request => .invalidRequest
  | content => .importError
  | stated code _ => code

/-- The wording of an error. -/
def message : Error → String
  | sentence rejection => rejection.messageInClause
  | store e => e.message
  | execution e => e.message
  | request => "Invalid request: expected one operation with its members"
  | content => "Content is not valid base64: expected padded groups of four symbols"
  | stated _ reason => reason

/-- The code of the error that was wrapped. -/
def cause? : Error → Option String
  | sentence rejection => some rejection.code.text
  | store e => some e.code
  | execution e => some e.code
  | request | content | stated .. => none

/-- The status of a response to a request that fails. -/
def status (e : Error) : Nat :=
  e.code.status

/-- An error behind the code of its class, as responses show it. -/
def coded (e : Error) : String :=
  s!"{e.code.text}: {e.message}"

/-- An error as a person reads it. -/
def shown (e : Error) : String :=
  s!"[{e.code.gravity.name}] {e.coded}"

end Error

end CourseQuery.Service
