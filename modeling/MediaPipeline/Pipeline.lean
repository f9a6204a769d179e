import MediaPipeline.Plan
import MediaPipeline.StepConfigs
/-!
# Pipeline — compiled steps, ready to run

A pipeline is a named list of compiled steps. Compiling plans a workflow and
instantiates each planned feature with its configuration; appending joins two
pipelines where the second takes what the first produces, and leaves the
first as it was where it does not.
-/


namespace MediaPipeline

/-- A compiled feature at its place in the pipeline. -/
structure CompiledStep where
  index : Nat
  compiled : Instance

namespace CompiledStep

/-- The name of the feature. -/
def name (s : CompiledStep) : String := s.compiled.name

/-- The command that the step runs. -/
def command (s : CompiledStep) : Command := s.compiled.command

/-- What is shown while the step runs. -/
def progress (s : CompiledStep) : Progress := s.compiled.progress

/-- The inputs that the step takes. -/
def intake (s : CompiledStep) : Intake := s.compiled.intake

/-- The type of what the step produces. -/
def outputType (s : CompiledStep) : MediaType := s.intake.primary

/-- A step as a record. -/
def toJson (s : CompiledStep) : Json :=
  .record [("index", .nat s.index), ("instance", s.compiled.toJson)]

end CompiledStep

/-- Compiled steps under a name. -/
structure Pipeline where
  name : String
  steps : List CompiledStep

namespace Pipeline

/-- A pipeline without steps. -/
def empty (name : String) : Pipeline := ⟨name, []⟩

instance : Inhabited Pipeline := ⟨empty ""⟩

/-- Whether there are no steps. -/
def isEmpty (p : Pipeline) : Bool := p.steps.isEmpty

/-- The number of steps. -/
def size (p : Pipeline) : Nat := p.steps.length

/-- Checks the inputs of the whole pipeline against its first step. -/
def checkInputs (p : Pipeline) (inputs : List MediaType) : Except Error Unit :=
  match p.steps with
  | [] => .ok ()
  | first :: _ =>
    match first.intake.checkAll inputs with
    | .ok () => .ok ()
    | .error why => .error (.unsupportedInput first.index first.name why.message)

/-- The name of two pipelines joined. -/
def joinedName (p q : Pipeline) : String := p.name ++ " + " ++ q.name

/-- Checks that a pipeline takes what another one produces. -/
def checkJoin (p q : Pipeline) : Except Error Unit :=
  match p.steps.getLast?, q.steps.head? with
  | some last, some first =>
    match first.intake.check last.outputType 1 with
    | .ok () => .ok ()
    | .error why =>
      .error (.incompatible (p.joinedName q) last.index first.index
        s!"{last.name} produces {last.outputType.name}: {why.message}")
  | _, _ => .ok ()

/-- A pipeline with another one behind it. -/
def append (p q : Pipeline) : Except Error Pipeline :=
  (p.checkJoin q).map fun _ =>
    ⟨if p.steps.isEmpty then q.name else p.joinedName q, p.steps ++ q.steps⟩

/-- What changes a pipeline in place. Where it fails, what it has changed until
then stays changed. -/
abbrev Edit (α : Type) : Type := ExceptT Error (StateM Pipeline) α

/-- What an edit of a pipeline gives, and the pipeline after it. -/
def Edit.perform {α : Type} (edit : Edit α) (p : Pipeline) : Except Error α × Pipeline :=
  edit.run.run p

/-- Puts another pipeline behind, in place. -/
def appendInPlace (q : Pipeline) : Edit Unit := do
  MonadExcept.ofExcept ((← get).checkJoin q)
  modify fun p => { p with name := if p.steps.isEmpty then q.name else p.joinedName q }
  modify fun p => { p with steps := p.steps ++ q.steps }

/-- A pipeline as a record. -/
def toJson (p : Pipeline) : Json :=
  .record [("name", .text p.name), ("steps", .list CompiledStep.toJson p.steps)]

end Pipeline

/-- A planned feature compiled against its configuration. -/
def Planned.compile (configs : StepConfigs) (p : Planned) : Except Error CompiledStep := do
  let c ← configs.resolve p.index p.entry
  let compiled ← p.entry.instantiate c
  .ok ⟨p.index, compiled⟩

/-- The pipeline of a workflow with the descendants on a path behind it,
compiled at places from `base` on. -/
def Catalogs.compileAt (c : Catalogs) (w : Workflow) (path : List Nat) (configs : StepConfigs)
    (base : Nat) : Except Error Pipeline := do
  let planned ← c.plan w path base
  let steps ← planned.mapM (Planned.compile configs)
  .ok ⟨w.name, steps⟩

/-- The pipeline of a workflow, compiled at places from zero on. -/
def Catalogs.compile (c : Catalogs) (w : Workflow) (path : List Nat) (configs : StepConfigs) :
    Except Error Pipeline :=
  c.compileAt w path configs 0

end MediaPipeline
