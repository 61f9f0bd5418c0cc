import CourseQuery.Text.Blank

/-!
# Dataset ids

A dataset is known by an id that can stand in a sentence as one word. So an id is not empty, holds
no blank, is none of the words of the sentences themselves, and holds neither `*` nor `_`.
-/

set_option autoImplicit false

namespace CourseQuery.DatasetId

/-- The words that no dataset may have as its id. -/
def reservedWords : List String :=
  ["In", "dataset", "find", "all", "show", "and", "or", "sort", "by", "entries", "is", "the", "of",
   "whose", "not", "greater", "than", "less", "equal", "to", "includes", "does", "include",
   "begins", "with", "begin", "ends", "end"]

/-- Why a text is no dataset id. -/
inductive Fault where
  | empty
  | wildcard
  | blank
  | reserved
deriving DecidableEq, Repr

/-- The first fault of a text as a dataset id, if it has one. -/
def fault? (id : String) : Option Fault :=
  if id.toList.isEmpty then some .empty
  else if id.toList.contains '*' || id.toList.contains '_' then some .wildcard
  else if id.toList.any Text.isBlank then some .blank
  else if reservedWords.contains id then some .reserved
  else none

/-- A text that can be a dataset id. -/
def Valid (id : String) : Prop :=
  fault? id = none

instance (id : String) : Decidable (Valid id) :=
  inferInstanceAs (Decidable (fault? id = none))

/-- The message for a text that is no dataset id. -/
def Fault.message (id : String) : Fault → String
  | empty => "Dataset id must not be empty"
  | wildcard => s!"Dataset id '{id}' may not contain '*' or '_'"
  | blank => s!"Dataset id '{id}' may not contain whitespace"
  | reserved => s!"Dataset id '{id}' is a reserved word"

end CourseQuery.DatasetId
