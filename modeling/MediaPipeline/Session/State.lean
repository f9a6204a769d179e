import MediaPipeline.Registry.Selection
import MediaPipeline.StepConfigs
/-!
# Session/State — where a session stands

The lifecycle of a session, what happened to each step, and what the user
chose. A session that was reset has chosen nothing and run nothing.
-/


namespace MediaPipeline

namespace Session

/-- The stages in the life of a session. -/
inductive State where
  | idle
  | awaitingConfiguration
  | compiling
  | ready
  | running
  | succeeded
  | failed
  deriving DecidableEq, Repr, Inhabited

/-- The name of a state. -/
def State.name : State → String
  | .idle => "Idle"
  | .awaitingConfiguration => "AwaitingConfiguration"
  | .compiling => "Compiling"
  | .ready => "Ready"
  | .running => "Running"
  | .succeeded => "Succeeded"
  | .failed => "Failed"

/-- What happened to a step. -/
inductive Status where
  | pending
  | running
  | done
  | failed
  deriving DecidableEq, Repr, Inhabited

/-- The name of a status. -/
def Status.name : Status → String
  | .pending => "pending"
  | .running => "running"
  | .done => "done"
  | .failed => "failed"

/-- The status of steps by their places. -/
structure ProgressTable where
  entries : List (Nat × Status) := []
  ascending : Table.Ascending entries := by exact Table.ascending_nil

namespace ProgressTable

/-- No step has a status. -/
def empty : ProgressTable := {}

instance : Inhabited ProgressTable := ⟨empty⟩

/-- The table with a status for the step at a place. -/
def set (t : ProgressTable) (index : Nat) (s : Status) : ProgressTable :=
  ⟨Table.insert index s t.entries, t.ascending.insert index s⟩

/-- The status of the step at a place. -/
def get? (t : ProgressTable) (index : Nat) : Option Status := Table.get? t.entries index

/-- The table with every one of the given places pending. -/
def pending (indices : List Nat) : ProgressTable :=
  indices.foldl (fun t i => t.set i .pending) empty

end ProgressTable

/-- What the user chose, and how far it got. -/
structure Execution where
  chosen : List Selection := []
  configs : StepConfigs := .empty
  submitted : Bool := false
  currentStep : Option Nat := none
  progress : ProgressTable := .empty

instance : Inhabited Execution := ⟨{}⟩

/-- An execution as a record. -/
def Execution.toJson (e : Execution) : Json :=
  .record [("chosen", .list Selection.toJson e.chosen), ("configs", e.configs.toJson),
    ("submitted", .bool e.submitted), ("current_step", .option Json.nat e.currentStep),
    ("progress_by_step",
      .record (e.progress.entries.map fun p => (toString p.1, .text p.2.name)))]

end Session

end MediaPipeline
