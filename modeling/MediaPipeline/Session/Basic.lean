import MediaPipeline.Event.Basic
import MediaPipeline.Registry.Lookup
import MediaPipeline.Session.Engine
import MediaPipeline.Session.State
/-!
# Session — from a selection to a pipeline

A session selects commands, configures their steps, and compiles them. Each
operation gives its result and the session after it; an operation that the
state does not allow leaves the session as it was. The session keeps a
journal of what it announced.
-/


namespace MediaPipeline

namespace Session

/-- The switch that aborts a run: off outside a run, armed during one, and
pulled once the run is aborted. -/
inductive Switch where
  | off
  | armed
  | pulled
  deriving DecidableEq, Repr, Inhabited

end Session

/-- One user's way from a selection to an output. The journal holds what the
session announced, the last announcement first. -/
structure Session where
  id : SessionId
  registry : Registry
  state : Session.State := .idle
  execution : Session.Execution := {}
  pipeline : Option Pipeline := none
  lastError : Option String := none
  switch : Session.Switch := .off
  journal : List Announcement := []

namespace Session

/-- A new session over a registry. -/
def start (id : SessionId) (registry : Registry) : Session := { id := id, registry := registry }

/-- The result of an operation and the session after it. -/
structure Outcome (α : Type) where
  result : Except Error α
  session : Session

/-- An operation that fails and changes nothing. -/
def refuse {α : Type} (s : Session) (e : Error) : Outcome α := ⟨.error e, s⟩

/-! ## Announcing -/

/-- The session after an announcement. -/
def announce (s : Session) (a : Announcement) : Session :=
  { s with journal := a :: s.journal }

/-- The session in another state, which it announces. -/
def enter (s : Session) (state : State) : Session :=
  { s with state := state }.announce (.stateChanged s.state.name state.name)

/-- The session after a failure that ends its work. -/
def fail (s : Session) (e : Error) : Session :=
  { s with lastError := some e.message }.enter .failed

/-- The announcements after a number of earlier ones, the oldest first. -/
def announcedSince (s : Session) (earlier : Nat) : List Announcement :=
  (s.journal.take (s.journal.length - earlier)).reverse

/-! ## Aborting and resetting -/

/-- Aborts the run that is in flight; without one nothing happens. -/
def abort (s : Session) : Session :=
  match s.switch with
  | .armed => { s with switch := .pulled }
  | _ => s

/-- Forgets everything that was chosen, compiled and run. -/
def reset (s : Session) : Session :=
  let cleared :=
    { s with execution := {}, pipeline := none, lastError := none, switch := .off }.announce
      .reset
  if s.state = .idle then cleared else cleared.enter .idle

/-! ## Selecting and configuring -/

/-- The failure of an operation that the state does not allow. -/
def notNow (s : Session) (action : String) : Error := .transition s.state.name action

/-- The kinds of the commands that selections name. -/
def kinds (s : Session) (selections : List Selection) : Except Error (List Registry.Kind) :=
  selections.mapM fun selection =>
    match s.registry.get? selection.path with
    | some node => .ok node.kind
    | none => .error (.notFound "command" selection.path)

/-- The session with selections that were checked. -/
def choose (s : Session) (selections : List Selection) : Session :=
  let announced := s.announce (.selected (selections.map (·.path)))
  { announced with
    execution := { s.execution with chosen := selections, configs := .empty } }.enter
      .awaitingConfiguration

/-- Checks that selections may be chosen now. -/
def checkSelections (s : Session) (selections : List Selection) : Except Error Unit := do
  if s.state ≠ .idle ∧ s.state ≠ .awaitingConfiguration then .error (s.notNow "select")
  else if selections = [] then .error (.validation .nothingSelected)
  else selections.forM fun selection => (s.registry.resolve selection).map fun _ => ()

/-- Chooses the commands to run, in order. The action that clears the session
resets it, in any state, and cannot be combined with other commands. -/
def select (s : Session) (selections : List Selection) : Outcome Unit :=
  match s.kinds selections with
  | .error e => s.refuse e
  | .ok kinds =>
    if .action ∈ kinds then
      if 1 < selections.length then s.refuse (.validation .mixedAction)
      else ⟨.ok (), s.reset⟩
    else
      match s.checkSelections selections with
      | .error e => s.refuse e
      | .ok () => ⟨.ok (), s.choose selections⟩

/-- The plan of all selections, with places that run through them. -/
def plannedSteps (s : Session) : Except Error (List Planned) :=
  s.execution.chosen.foldlM (fun done selection =>
    (s.registry.plan selection done.length).map (done ++ ·)) []

/-- The planned steps that have neither a configuration nor defaults. -/
def pendingConfiguration (s : Session) : Except Error (List Planned) :=
  s.plannedSteps.map fun planned =>
    planned.filter fun p =>
      (s.execution.configs.get? p.index).isNone && p.entry.defaults.isNone

/-- Gives a configuration for the step at a place. -/
def configure (s : Session) (index : Nat) (c : Configuration) : Outcome Unit :=
  if s.state ≠ .awaitingConfiguration then s.refuse (s.notNow "configure")
  else
    match s.plannedSteps with
    | .error e => s.refuse e
    | .ok planned =>
      if planned.any fun (p : Planned) => p.index == index then
        ⟨.ok (), { s with
          execution := { s.execution with configs := s.execution.configs.insert index c } }⟩
      else s.refuse (.validation (.noSuchStep index planned.length))

/-! ## Compiling -/

/-- The session with the pipeline that its selections compile to. -/
def accept (s : Session) (p : Pipeline) : Session :=
  let announced := s.announce (.compiled p.size)
  { announced with
    execution := { s.execution with progress := .pending (p.steps.map CompiledStep.index) }
    pipeline := some p }.enter .ready

/-- Compiles the selections. A failure of compilation ends the work of the
session. -/
def submit (s : Session) : Outcome Pipeline :=
  if s.state ≠ .awaitingConfiguration then s.refuse (s.notNow "submit")
  else
    let compiling :=
      { s with execution := { s.execution with submitted := true } }.enter .compiling
    match s.registry.compileAll s.execution.chosen s.execution.configs with
    | .ok p => ⟨.ok p, compiling.accept p⟩
    | .error e => ⟨.error e, (compiling.announce (.compileFailed e.message)).fail e⟩

end Session

end MediaPipeline
