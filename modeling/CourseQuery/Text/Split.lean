/-!
# Splitting at a mark

A section is split into lines and a line into columns at every occurrence of a mark, and so is a
path into names. The parts joined by the mark are the whole again, so a whole without the mark is a
single part.
-/

set_option autoImplicit false

namespace CourseQuery.Text

variable {α : Type} [DecidableEq α]

/-- The parts between marks; `part` is the beginning of the first one, last element first. -/
def splitFrom (mark : α) (part : List α) : List α → List (List α)
  | [] => [part.reverse]
  | c :: rest =>
    if c = mark then part.reverse :: splitFrom mark [] rest else splitFrom mark (c :: part) rest

/-- The parts of a list between the occurrences of a mark. -/
def split (mark : α) (s : List α) : List (List α) :=
  splitFrom mark [] s

end CourseQuery.Text
