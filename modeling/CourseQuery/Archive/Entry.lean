import CourseQuery.Bytes

/-!
# Files of an archive

Whatever the form of an archive, reading it gives its regular files in order, each with a path and
its bytes, or a fault: the archive as a whole, one of its entries, or the bytes of one entry cannot
be read.
-/

set_option autoImplicit false

namespace CourseQuery.Archive

/-- A regular file of an archive. -/
structure Entry where
  path : String
  content : Bytes
deriving DecidableEq, Repr

/-- What of an archive cannot be read, and why. -/
inductive Fault where
  | archive (reason : String)
  | entry (reason : String)
  | content (path : String) (reason : String)
deriving DecidableEq, Repr

/-- The wording of a fault. -/
def Fault.message : Fault → String
  | archive reason => s!"unreadable archive: {reason}"
  | entry reason => s!"unreadable archive entry: {reason}"
  | content path reason => s!"cannot read '{path}': {reason}"

end CourseQuery.Archive
