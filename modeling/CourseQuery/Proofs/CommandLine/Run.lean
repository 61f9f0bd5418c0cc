import CourseQuery.CommandLine.World
import CourseQuery.Proofs.CommandLine.Location
import CourseQuery.Proofs.Service.Framing

/-!
# What a run does

A run that finds its settings and its folder works over the folder of the datasets and nowhere else:
whatever a request or a command asks for, its work *stays inside* the folder, so the store behind
the path does what it does over the folder taken as a directory of its own. What is known of the
service over a directory is thereby known of a run. A run that serves answers the requests on its
input line for line, and a run for a single request answers it as `execute` does.
-/

set_option autoImplicit false

namespace CourseQuery.CommandLine

open Service (Outcome Response Session respond respondLine)

/-! ## Work that stays inside a folder -/

/-- What comes of work over the folder of a location, as it comes of the location. -/
def Location.lift {α : Type} (l : Location) (place : Place) (o : Outcome Directory α) :
    Outcome Location α :=
  ⟨o.result, l.put place o.store, o.trace⟩

/-- Work over the store behind a path comes to the same as over the folder there, taken as a
directory of its own, and names have as much room in it afterwards. -/
structure StaysInside {α : Type} (f : Work α) : Prop where
  inside : ∀ {l : Location} {place : Place}, l.Opened place → ∀ now : String,
    f now l = l.lift place (f now (l.directory place))
  room : ∀ (d : Directory) (now : String), (f now d).store.room = d.room

variable {α β : Type}

/-- What is done with the result of work does not lead out of the folder. -/
theorem StaysInside.map {f : Work α} (hf : StaysInside f) (g : α → β) :
    StaysInside fun now store => (f now store).map g where
  inside h now := congrArg (Outcome.map g) (hf.inside h now)
  room d now := hf.room d now

/-- Work that neither looks at the store nor changes it stays inside. -/
theorem staysInside_idle (result : α) (trace : List Trace.Entry) :
    StaysInside fun _ store => ⟨result, store, trace⟩ where
  inside h now := by rw [Location.lift, h.put_directory]
  room d now := rfl

/-- The answer to a query stays inside, since only what is loaded comes into it. -/
theorem staysInside_respondQuery (sentence : String) :
    StaysInside fun _ store => Service.respondQuery store sentence where
  inside {l place} h now := by
    have hload : ∀ id, Store.load l id = Store.load (l.directory place) id := h.load_eq
    have hperform : Service.perform l sentence = Service.perform (l.directory place) sentence := by
      simp only [Service.perform, Service.answer, hload]
    simp only [Service.respondQuery, hperform, Location.lift, h.put_directory]
  room d now := rfl

/-- The listing stays inside. -/
theorem staysInside_respondList : StaysInside fun _ store => Service.respondList store where
  inside {l place} h now := by
    have hlist : Store.list l = Store.list (l.directory place) := h.list_eq
    simp only [Service.respondList, hlist, Location.lift, h.put_directory]
  room d now := rfl

/-- The dropping of a dataset stays inside, whatever its id is made of. -/
theorem staysInside_respondRemove (id : String) :
    StaysInside fun _ store => Service.respondRemove store id where
  inside {l place} h now := by
    have hremove : Store.remove l id = _ := h.remove_eq id
    simp only [Service.respondRemove, Service.remove, Outcome.map, hremove]
    rfl
  room d now := (Disk.differOnlyAt_remove d id).room.symm

/-- An import stays inside, whatever its id is made of. -/
theorem staysInside_add (id : String) (archive : Bytes) (kind : DatasetKind) :
    StaysInside fun now store => Service.add now store id archive kind where
  inside {l place} h now := by
    have hadd : Store.add l now id archive kind = _ := h.add_eq now id archive kind
    simp only [Service.add, hadd]
    rfl
  room d now := (Disk.differOnlyAt_add d now id archive kind).room.symm

/-- A request that adds a dataset stays inside. -/
theorem staysInside_addContent (id kind content : String) :
    StaysInside fun now store => Service.addContent now store id kind content := by
  unfold Service.addContent
  cases DatasetKind.ofName kind with
  | error e => exact staysInside_idle _ _
  | ok kind =>
    cases Service.decodeContent content with
    | error e => exact staysInside_idle _ _
    | ok archive => exact staysInside_add id archive kind

/-- A command that adds a dataset stays inside. -/
theorem staysInside_addNamed (id kind : String) (archive : Bytes) :
    StaysInside fun now store => Service.addNamed now store id kind archive := by
  unfold Service.addNamed
  cases DatasetKind.ofName kind with
  | error e => exact staysInside_idle _ _
  | ok kind => exact staysInside_add id archive kind

/-- Whatever a request asks for, answering it stays inside. -/
theorem staysInside_respond (request : Service.Request) :
    StaysInside fun now store => respond now store request := by
  cases request with
  | query sentence => exact staysInside_respondQuery sentence
  | explain sentence => exact staysInside_idle _ _
  | add id kind content => exact (staysInside_addContent id kind content).map _
  | remove id => exact staysInside_respondRemove id
  | list => exact staysInside_respondList

/-- Whatever a line holds, answering it stays inside. -/
theorem staysInside_respondLine (line : String) :
    StaysInside fun now store => respondLine now store line := by
  unfold respondLine
  cases Service.Request.parse? line with
  | none => exact staysInside_idle _ _
  | some request => exact staysInside_respond request

/-- Whatever a command says, doing it stays inside. -/
theorem staysInside_executeWith (archive : Option Bytes) (command : Command) :
    StaysInside fun now store => executeWith archive command now store := by
  unfold executeWith
  cases command with
  | query sentence => exact (staysInside_respondQuery sentence).map _
  | explain sentence => exact (staysInside_idle _ _).map _
  | add id path kind =>
    cases archive with
    | none => exact staysInside_idle _ _
    | some archive => exact ((staysInside_addNamed id kind archive).map _).map _
  | remove id => exact (staysInside_respondRemove id).map _
  | list => exact staysInside_respondList.map _
  | serve => exact staysInside_idle _ _

/-! ## A world that is left -/

/-- A run of a part of the program ends as told. What it writes and traces stands behind what was
written and traced before, and it leaves a directory in the folder at a place and everything else in
the workspace as it was. -/
structure Leaves (world : World) (place : Place) (result : Except Error Unit)
    (lines : List String) (trace : List Trace.Entry) (d : Directory)
    (left : Except Error Unit × World) : Prop where
  result : left.1 = result
  lines : left.2.lines = world.lines ++ lines
  trace : left.2.trace = world.trace ++ trace
  workspace : left.2.workspace = world.workspace.setFolder place d.folder

section

variable {world : World} {folder : String} {place : Place}

/-- No other folder is changed. -/
theorem Leaves.elsewhere {result : Except Error Unit} {lines : List String}
    {trace : List Trace.Entry} {d : Directory} {left : Except Error Unit × World}
    (h : Leaves world place result lines trace d left) {other : Place} (hne : other ≠ place) :
    left.2.workspace.folder other = world.workspace.folder other := by
  rw [h.workspace]
  exact if_neg hne

/-- What is left of a world can be gone on from. -/
theorem Leaves.trans {first result : Except Error Unit} {lines lines' : List String}
    {trace trace' : List Trace.Entry} {d d' : Directory} {mid : World}
    {left : Except Error Unit × World} (h : Leaves world place first lines trace d (first, mid))
    (h' : Leaves mid place result lines' trace' d' left) :
    Leaves world place result (lines ++ lines') (trace ++ trace') d' left where
  result := h'.result
  lines := by rw [h'.lines, h.lines, List.append_assoc]
  trace := by rw [h'.trace, h.trace, List.append_assoc]
  workspace := by rw [h'.workspace, h.workspace, Workspace.setFolder_setFolder]

/-- Work that stays inside is done over the folder, and what it leaves there is put in its place. -/
theorem World.work_eq {α : Type} {f : Work α} (hf : StaysInside f)
    (h : (world.location folder).Opened place) :
    let outcome := f (world.clock 0) ((world.location folder).directory place)
    World.work folder f world =
      (outcome.result,
        world.worked (world.workspace.setFolder place outcome.store.folder) outcome.trace) := by
  dsimp only [World.work]
  rw [hf.inside h]
  rfl

/-! ## Serving -/

/-- The requests on lines, each with the time at which it is answered. A blank line takes none. -/
def requestsAt (clock : Nat → String) : List Bytes → List (Except Error (String × String))
  | [] => []
  | line :: rest =>
    match requestOf? line with
    | none => requestsAt clock rest
    | some (.error e) => .error e :: requestsAt clock rest
    | some (.ok request) => .ok (clock 0, request) :: requestsAt (fun n => clock (n + 1)) rest

/-- How a run ends that a failure may have cut short. -/
def ending : Option Error → Except Error Unit
  | none => .ok ()
  | some e => .error e

/-- What a session makes of a world. -/
abbrev Serves (world : World) (place : Place) (session : Session Directory Error)
    (left : Except Error Unit × World) : Prop :=
  Leaves world place (ending session.failure) session.lines session.trace session.store left

/-- What comes of a line of the input in a world. -/
def World.answering (folder : String) (line : Bytes) (world : World) :
    Except Error Unit × World :=
  (answerLine folder line : StateM World (Except Error Unit)) world

/-- A blank line leaves the world as it is. -/
theorem World.answering_blank {line : Bytes} (h : requestOf? line = none) :
    World.answering folder line world = (.ok (), world) := by
  simp only [World.answering, answerLine, h]
  rfl

/-- A line that is no text ends the run. -/
theorem World.answering_failure {line : Bytes} {e : Error} (h : requestOf? line = some (.error e)) :
    World.answering folder line world = (.error e, world) := by
  simp only [World.answering, answerLine, h]
  rfl

/-- A request is answered over the folder with a line. -/
theorem World.answering_request {line : Bytes} {request : String}
    (h : requestOf? line = some (.ok request))
    (hplace : (world.location folder).Opened place) :
    let outcome := respondLine (world.clock 0) ((world.location folder).directory place) request
    let left := world.worked (world.workspace.setFolder place outcome.store.folder) outcome.trace
    World.answering folder line world =
      (.ok (), { left with lines := world.lines ++ [outcome.result.text] }) := by
  have hwork := World.work_eq (staysInside_respondLine request) hplace
  have hstep : World.answering folder line world =
      (fun answered : Response × World =>
        (Except.ok (), { answered.2 with lines := answered.2.lines ++ [answered.1.text] }))
        (World.work folder (fun now store => respondLine now store request) world) := by
    simp only [World.answering, answerLine, h]
    rfl
  rw [hstep, hwork]
  rfl

/-- Nothing was written or traced, and the folder holds what it held. -/
theorem leaves_self (h : (world.location folder).Opened place) {result : Except Error Unit}
    {left : Except Error Unit × World} (hresult : left.1 = result)
    (hlines : left.2.lines = world.lines) (htrace : left.2.trace = world.trace)
    (hworkspace : left.2.workspace = world.workspace) :
    Leaves world place result [] [] ((world.location folder).directory place) left where
  result := hresult
  lines := hlines.trans (List.append_nil _).symm
  trace := htrace.trans (List.append_nil _).symm
  workspace := hworkspace.trans (Workspace.setFolder_self h.folder_eq).symm

/-- The lines of an input are answered one by one over the folder of the datasets, each at its time
and over what the lines before it left there. -/
theorem serves_eachOf (h : (world.location folder).Opened place) (lines : List Bytes) :
    Serves world place
      (Service.serve ((world.location folder).directory place) (requestsAt world.clock lines))
      (World.eachOf (World.answering folder) lines world) := by
  induction lines generalizing world with
  | nil => exact leaves_self h rfl rfl rfl rfl
  | cons line rest ih =>
    rw [World.eachOf]
    cases hrequest : requestOf? line with
    | none =>
      rw [World.answering_blank hrequest, requestsAt, hrequest]
      have hrest := @ih { world with input := rest } h
      exact ⟨hrest.result, hrest.lines, hrest.trace, hrest.workspace⟩
    | some request =>
      cases request with
      | error e =>
        rw [World.answering_failure hrequest, requestsAt, hrequest]
        exact leaves_self h rfl rfl rfl rfl
      | ok request =>
        let outcome := respondLine (world.clock 0) ((world.location folder).directory place) request
        let mid : World := { world.worked (world.workspace.setFolder place outcome.store.folder)
          outcome.trace with input := rest, lines := world.lines ++ [outcome.result.text] }
        -- the line is answered in the world whose input is what is left behind it
        have hanswer : World.answering folder line { world with input := rest } = (.ok (), mid) :=
          World.answering_request hrequest h
        have hhead : Leaves world place (.ok ()) [outcome.result.text] outcome.trace outcome.store
          (.ok (), mid) := ⟨rfl, rfl, rfl, rfl⟩
        have hdirectory : (mid.location folder).directory place = outcome.store :=
          Location.directory_put ((staysInside_respondLine request).room _ _)
        have hrest := @ih mid (h.put outcome.store)
        rw [hdirectory] at hrest
        rw [hanswer, requestsAt, hrequest]
        exact hhead.trans hrest

end

/-! ## A whole run -/

section

variable {world : World} {place : Place} {arguments : Arguments} {settings : Settings}

/-- The world once the settings are read and the folder of the datasets is opened as far as it can
be. -/
def World.prepared (world : World) (settings : Settings) : World :=
  { world with
    workspace := (world.workspace.openFolder settings.datasets).workspace
    threshold := settings.level
    trace := world.trace ++ [settings.loadedEntry] }

/-- The settings of a run are those in the file that the arguments name. -/
def World.Reads (world : World) (arguments : Arguments) (settings : Settings) : Prop :=
  Settings.ofFile (world.workspace.read? arguments.config) = .ok settings

/-- The folder of the datasets could be opened at a place. -/
def World.OpensAt (world : World) (settings : Settings) (place : Place) : Prop :=
  (world.workspace.openFolder settings.datasets).place = some place

/-- A run without settings does nothing. -/
theorem run_of_fault {fault : Settings.Fault}
    (h : Settings.ofFile (world.workspace.read? arguments.config) = .error fault) :
    world.run arguments = (.error (.settings fault), world) := by
  show (runWith arguments.command (Settings.ofFile (world.workspace.read? arguments.config)) :
    StateM World (Except Error Unit)) world = _
  rw [h]
  rfl

/-- A run with settings does what the command says, unless something is in the way of the folder of
the datasets. -/
theorem run_eq (h : world.Reads arguments settings) :
    world.run arguments =
      if (world.workspace.openFolder settings.datasets).place.isSome then
        (perform settings.datasets arguments.command : StateM World (Except Error Unit))
          (world.prepared settings)
      else (.error blockedError, world.prepared settings) := by
  show (runWith arguments.command (Settings.ofFile (world.workspace.read? arguments.config)) :
    StateM World (Except Error Unit)) world = _
  rw [show Settings.ofFile (world.workspace.read? arguments.config) = .ok settings from h]
  show (if (world.workspace.openFolder settings.datasets).place.isSome then
      (perform settings.datasets arguments.command : StateM World (Except Error Unit))
      else (return .error blockedError)) (world.prepared settings) = _
  split
  · rfl
  · rfl

/-- When something is in the way of the folder of the datasets, the run fails, and the folders that
were made on the way to it stay. -/
theorem run_of_blocked (h : world.Reads arguments settings)
    (hblocked : (world.workspace.openFolder settings.datasets).place = none) :
    world.run arguments = (.error blockedError, world.prepared settings) := by
  rw [run_eq h, hblocked]
  rfl

/-- When the folder of the datasets is open, the run does what the command says. -/
theorem run_of_opensAt (h : world.Reads arguments settings)
    (hplace : world.OpensAt settings place) :
    world.run arguments =
      (perform settings.datasets arguments.command : StateM World (Except Error Unit))
        (world.prepared settings) := by
  rw [run_eq h, show (world.workspace.openFolder settings.datasets).place = some place from hplace]
  rfl

/-- The folder of the datasets as a run finds it, taken as a directory of its own. -/
def World.datasets (world : World) (settings : Settings) (place : Place) : Directory :=
  ((world.prepared settings).location settings.datasets).directory place

/-- The folder of the datasets is there once it is opened. -/
theorem opened_prepared (hplace : world.OpensAt settings place) :
    ((world.prepared settings).location settings.datasets).Opened place :=
  Location.opened_of_openFolder hplace

/-! ### Serving -/

/-- A run that serves answers the lines of its input over the folder of the datasets, and fails if
one of them is no text. -/
theorem run_serve (h : world.Reads arguments settings) (hplace : world.OpensAt settings place)
    (hserve : arguments.command = .serve) :
    let session := Service.serve (world.datasets settings place)
      (requestsAt world.clock world.input)
    Leaves (world.prepared settings) place (ending session.failure) session.lines
      (Trace.Event.serving.entry [] :: session.trace) session.store (world.run arguments) := by
  intro session
  let begun : World := { world.prepared settings with
    trace := (world.prepared settings).trace ++ [Trace.Event.serving.entry []] }
  have hrun : world.run arguments =
      World.eachOf (World.answering settings.datasets) begun.input begun := by
    rw [run_of_opensAt h hplace, hserve]
    rfl
  have hbegun : (begun.location settings.datasets).Opened place := opened_prepared hplace
  have hserved := serves_eachOf hbegun begun.input
  rw [hrun]
  exact ⟨hserved.result, hserved.lines, hserved.trace.trans (List.append_assoc ..),
    hserved.workspace⟩

/-- A run that serves writes one line for each request that it reads, each of them framed, and
leaves what the requests leave. -/
theorem run_serve_responses (h : world.Reads arguments settings)
    (hplace : world.OpensAt settings place) (hserve : arguments.command = .serve) :
    ∃ requests failure trace, let d := world.datasets settings place
      Service.Received requests (requestsAt world.clock world.input) failure ∧
        (∀ line ∈ Service.responses d requests, Service.Framed line) ∧
        Leaves (world.prepared settings) place (ending failure) (Service.responses d requests) trace
          (Service.storeAfter d requests) (world.run arguments) := by
  obtain ⟨requests, failure, hreceived⟩ :=
    Service.exists_received (requestsAt world.clock world.input)
  have hanswers := hreceived.answersLines (world.datasets settings place)
  have hrun := run_serve h hplace hserve
  dsimp only at hrun
  rw [hanswers.failure, hanswers.lines, hanswers.store] at hrun
  exact ⟨requests, failure, _, hreceived, Service.framed_responses _ _, hrun⟩

/-! ### A single request -/

/-- Only the archive that a command takes in is read. -/
theorem execute_archive? {σ : Type} [Store σ] (now : String) (store : σ)
    (read? : String → Option Bytes) (command : Command) :
    execute now store (fun _ => command.archive?.bind read?) command =
      execute now store read? command := by
  cases command <;> rfl

/-- A command other than to serve delivers what comes of its work. -/
theorem perform_eq {command : Command} (hcommand : command ≠ .serve) (folder : String) :
    let done := World.work folder
      (executeWith (command.archive?.bind world.workspace.read?) command) world
    (perform folder command : StateM World (Except Error Unit)) world =
      (deliver done.1 : StateM World (Except Error Unit)) done.2 := by
  cases command with
  | serve => exact absurd rfl hcommand
  | query | explain | add | remove | list => rfl

/-- A run that does not serve does its work over the folder of the datasets. -/
theorem run_once (h : world.Reads arguments settings) (hplace : world.OpensAt settings place)
    (hcommand : arguments.command ≠ .serve) :
    let archive := arguments.command.archive?.bind (world.prepared settings).workspace.read?
    let done := executeWith archive arguments.command (world.clock 0)
      (world.datasets settings place)
    Leaves (world.prepared settings) place (done.result.map fun _ => ())
      (done.result.toOption.toList.map Response.text) done.trace done.store
      (world.run arguments) := by
  intro archive done
  have hwork := World.work_eq (staysInside_executeWith archive arguments.command)
    (opened_prepared hplace)
  have hrun : world.run arguments =
      (deliver done.result : StateM World (Except Error Unit))
        ((world.prepared settings).worked
          ((world.prepared settings).workspace.setFolder place done.store.folder) done.trace) := by
    rw [run_of_opensAt h hplace, perform_eq hcommand, hwork]
    rfl
  rw [hrun]
  cases done.result with
  | error e => exact ⟨rfl, (List.append_nil _).symm, rfl, rfl⟩
  | ok response => exact ⟨rfl, rfl, rfl, rfl⟩

/-- A run for a single request answers it over the folder of the datasets with a line. -/
theorem run_of_execute_ok (h : world.Reads arguments settings)
    (hplace : world.OpensAt settings place) {outcome : Outcome Directory Response}
    (hexecute : execute (world.clock 0) (world.datasets settings place)
      (world.prepared settings).workspace.read? arguments.command = .ok outcome) :
    Leaves (world.prepared settings) place (.ok ()) [outcome.result.text] outcome.trace
      outcome.store (world.run arguments) := by
  have hcommand : arguments.command ≠ .serve := by
    intro hserve
    rw [hserve] at hexecute
    contradiction
  have hrun := run_once h hplace hcommand
  simp only [executeWith, execute_archive?, hexecute] at hrun
  exact hrun

/-- A run for a single request that cannot be done answers nothing and leaves the folder of the
datasets as it is. -/
theorem run_of_execute_error (h : world.Reads arguments settings)
    (hplace : world.OpensAt settings place) (hcommand : arguments.command ≠ .serve) {e : Error}
    (hexecute : execute (world.clock 0) (world.datasets settings place)
      (world.prepared settings).workspace.read? arguments.command = .error e) :
    Leaves (world.prepared settings) place (.error e) [] [] (world.datasets settings place)
      (world.run arguments) := by
  have hrun := run_once h hplace hcommand
  simp only [executeWith, execute_archive?, hexecute] at hrun
  exact hrun

/-- A run for a query, an explanation or a listing succeeds and changes no folder once that of the
datasets is open. -/
theorem run_of_observing (h : world.Reads arguments settings)
    (hplace : world.OpensAt settings place)
    (hcommand : (∃ sentence, arguments.command = .query sentence) ∨
      (∃ sentence, arguments.command = .explain sentence) ∨ arguments.command = .list) :
    (world.run arguments).1 = .ok () ∧
      (world.run arguments).2.workspace = (world.prepared settings).workspace := by
  have hunchanged : ∃ outcome, execute (world.clock 0) (world.datasets settings place)
      (world.prepared settings).workspace.read? arguments.command = .ok outcome ∧
        outcome.store = world.datasets settings place := by
    rcases hcommand with ⟨sentence, hcommand⟩ | ⟨sentence, hcommand⟩ | hcommand
    all_goals
      rw [hcommand]
      exact ⟨_, rfl, rfl⟩
  obtain ⟨outcome, hexecute, hstore⟩ := hunchanged
  have hrun := run_of_execute_ok h hplace hexecute
  refine ⟨hrun.result, ?_⟩
  rw [hrun.workspace, hstore]
  exact Workspace.setFolder_self (opened_prepared hplace).folder_eq

/-- Whatever a run is told to do, once the folder of the datasets is open it changes no other. -/
theorem folder_run_of_ne (h : world.Reads arguments settings)
    (hplace : world.OpensAt settings place)
    {other : Place} (hne : other ≠ place) :
    (world.run arguments).2.workspace.folder other =
      (world.prepared settings).workspace.folder other := by
  by_cases hserve : arguments.command = .serve
  · exact (run_serve h hplace hserve).elsewhere hne
  · exact (run_once h hplace hserve).elsewhere hne

end

end CourseQuery.CommandLine
