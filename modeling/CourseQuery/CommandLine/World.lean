import CourseQuery.CommandLine.Location
import CourseQuery.CommandLine.Run

/-!
# A world to run in

A world is a system that is a value: a workspace, a clock, an input, and what was written and traced
so far. A run in a world is a function of the world.
-/

set_option autoImplicit false

namespace CourseQuery.CommandLine

/-- What a run sees and leaves. -/
structure World where
  workspace : Workspace
  /-- The times at which work is done that is still to come. -/
  clock : Nat → String
  threshold : Trace.Severity
  /-- The lines of the input that are still to come, without their ends. -/
  input : List Bytes
  /-- The lines that were written, without their ends. -/
  lines : List String
  /-- What was traced, whatever the threshold. -/
  trace : List Trace.Entry

namespace World

/-- A world in which nothing was written or traced. -/
def start (workspace : Workspace) (clock : Nat → String) (threshold : Trace.Severity)
    (input : Bytes) : World :=
  ⟨workspace, clock, threshold, inputLines input, [], []⟩

/-- The world after one piece of work, which leaves a workspace and a trace. -/
def worked (world : World) (workspace : Workspace) (trace : List Trace.Entry) : World :=
  { world with
    workspace, clock := fun n => world.clock (n + 1), trace := world.trace ++ trace }

/-- Opens a folder, and tells whether it is open. -/
def openFolder (path : String) (world : World) : Bool × World :=
  let opening := world.workspace.openFolder path
  (opening.place.isSome, { world with workspace := opening.workspace })

/-- The store behind the path of a folder. -/
def location (world : World) (folder : String) : Location :=
  ⟨world.workspace, folder⟩

/-- Does a piece of work over the store behind the path of a folder. -/
def work {α : Type} (folder : String) (f : Work α) (world : World) : α × World :=
  let outcome := f (world.clock 0) (world.location folder)
  (outcome.result, world.worked outcome.store.workspace outcome.trace)

/-- Hands over lines one by one until they end or one fails. -/
def eachOf (f : Bytes → World → Except Error Unit × World) :
    List Bytes → World → Except Error Unit × World
  | [], world => (.ok (), { world with input := [] })
  | line :: rest, world =>
    match f line { world with input := rest } with
    | (.ok (), world) => eachOf f rest world
    | (.error e, world) => (.error e, world)

end World

instance : System (StateM World) where
  readFile path world := (world.workspace.read? path, world)
  openFolder := World.openFolder
  setThreshold threshold world := ((), { world with threshold })
  trace entries world := ((), { world with trace := world.trace ++ entries })
  work := World.work
  respond line world := ((), { world with lines := world.lines ++ [line] })
  eachLine f world := World.eachOf f world.input world

/-- A run of the program in a world: its end, and the world that it leaves. -/
def World.run (world : World) (arguments : Arguments) : Except Error Unit × World :=
  (CommandLine.run arguments : StateM World (Except Error Unit)) world

end CourseQuery.CommandLine
