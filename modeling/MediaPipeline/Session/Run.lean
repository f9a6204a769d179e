import MediaPipeline.Session.Basic
/-!
# Session/Run — the steps of a pipeline, one after the other

A run hands each step to the engine, in order and once each: the first gets
the intake, every other the output of the one before. The first failure ends
the run and no later step is tried. An abort that is seen before a step has
finished abandons the run and resets the session; one that comes after the
last step has finished comes too late.
-/


namespace MediaPipeline

namespace Session

/-- A step that was completed and how long it took. -/
structure StepReport where
  index : Nat
  feature : String
  elapsedMs : Nat
  deriving DecidableEq, Repr, Inhabited

/-- The outcome of a run that completed all steps. -/
structure Report where
  steps : List StepReport
  output : Artifact
  deriving DecidableEq, Repr, Inhabited

/-- How long all steps took together. -/
def Report.totalElapsedMs (r : Report) : Nat := (r.steps.map (·.elapsedMs)).foldl (· + ·) 0

/-- The outcome of an operation that used an engine, and the engine's world
after it. -/
structure RunOutcome (ω : Type) where
  result : Except Error Report
  session : Session
  world : ω

/-! ## One step -/

/-- The session with another status for the step at a place. -/
def setStatus (s : Session) (index : Nat) (status : Status) : Session :=
  { s with execution := { s.execution with progress := s.execution.progress.set index status } }

/-- The session at the start of a step. -/
def startStep (s : Session) (step : CompiledStep) : Session :=
  let current := { s with execution := { s.execution with currentStep := some step.index } }
  (current.setStatus step.index .running).announce
    (.stepStarted step.index step.name step.progress.label step.progress.color)

/-- The session after a step that was completed. -/
def completeStep (s : Session) (step : CompiledStep) (elapsedMs : Nat) : Session :=
  (s.setStatus step.index .done).announce (.stepCompleted step.index step.name elapsedMs)

/-- A failure as the engine's failure at a step. -/
def stepError (step : CompiledStep) (e : Error) : Error :=
  match e with
  | .engine index feature reason => .engine index feature reason
  | other => .engine step.index step.name other.message

/-- The session after a step that failed. -/
def failStep (s : Session) (step : CompiledStep) (e : Error) : Session :=
  ((s.setStatus step.index .failed).announce
    (.stepFailed step.index step.name e.message)).fail e

/-- The request for a step. -/
def request (s : Session) (step : CompiledStep) (inputs : List Artifact) : Request where
  session := s.id
  index := step.index
  feature := step.name
  command := step.command
  inputs := inputs
  outputType := step.outputType

/-- The session after an abort that was reported, or not. -/
def abortIf (s : Session) (aborted : Bool) : Session := if aborted then s.abort else s

/-! ## A run, step by step -/

/-- Where a run stands between two of its steps: the session, the inputs of
the next step, the reports of the steps that are done, and the engine's
world. -/
structure Moment (ω : Type) where
  session : Session
  inputs : List Artifact
  reports : List StepReport
  world : ω

/-- What one step makes of a run: it is over, or it goes on. -/
inductive Turn (ω : Type) where
  | over (outcome : RunOutcome ω)
  | on (next : Moment ω)

/-- A run that was aborted: the engine clears up and the session is reset. -/
def abandon {ω : Type} (e : Engine ω) (s : Session) (w : ω) : RunOutcome ω :=
  ⟨.error .cancelled, s.reset, e.abandon s.id w⟩

namespace Moment

variable {ω : Type}

/-- The moment before a step is requested: the step has started, and the
engine has told whether the run was aborted so far. -/
def begin (e : Engine ω) (m : Moment ω) (step : CompiledStep) : Moment ω :=
  let started := m.session.startStep step
  let (aborted, w) := e.abortsBefore (started.request step m.inputs) m.world
  { m with session := started.abortIf aborted, world := w }

/-- The moment after the step was completed. -/
def complete (m : Moment ω) (step : CompiledStep) (output : Artifact) (elapsedMs : Nat)
    (aborted : Bool) (w : ω) : Moment ω where
  session := (m.session.abortIf aborted).completeStep step elapsedMs
  inputs := [output]
  reports := m.reports ++ [⟨step.index, step.name, elapsedMs⟩]
  world := w

/-- The outcome of a run whose step failed. -/
def stop (m : Moment ω) (step : CompiledStep) (cause : Error) (aborted : Bool) (w : ω) :
    RunOutcome ω :=
  let failure := stepError step cause
  ⟨.error failure, (m.session.abortIf aborted).failStep step failure, w⟩

/-- What a reply makes of a run that stands before its step. -/
def settle (e : Engine ω) (m : Moment ω) (step : CompiledStep) : Reply × ω → Turn ω
  | (.interrupted, w) => .over (abandon e m.session.abort w)
  | (.finished (.ok output) elapsedMs aborted, w) =>
    .on (m.complete step output elapsedMs aborted w)
  | (.finished (.error cause) _ aborted, w) => .over (m.stop step cause aborted w)

/-- One step of a run. -/
def turn (e : Engine ω) (m : Moment ω) (step : CompiledStep) : Turn ω :=
  let begun := m.begin e step
  if begun.session.switch = .pulled then .over (abandon e begun.session begun.world)
  else begun.settle e step (e.call (begun.session.request step begun.inputs) begun.world)

/-- A run whose steps are all completed. -/
def conclude (m : Moment ω) : RunOutcome ω :=
  match m.inputs.getLast? with
  | none => ⟨.error (.internal "pipeline produced no output"), m.session, m.world⟩
  | some output =>
    ⟨.ok ⟨m.reports, output⟩,
      (m.session.announce (.succeeded m.reports.length)).enter .succeeded, m.world⟩

/-- A run over the steps that are left. -/
def run (e : Engine ω) (m : Moment ω) : List CompiledStep → RunOutcome ω
  | [] => m.conclude
  | step :: rest =>
    match m.turn e step with
    | .over outcome => outcome
    | .on next => next.run e rest

end Moment

/-- The moment at which a run over an intake begins. -/
def opening {ω : Type} (s : Session) (intake : List Artifact) (w : ω) : Moment ω :=
  ⟨{ s with switch := .armed }.enter .running, intake, [], w⟩

/-- The outcome of a run with the switch off again. -/
def RunOutcome.disarm {ω : Type} (o : RunOutcome ω) : RunOutcome ω :=
  { o with session := { o.session with switch := .off } }

/-- Runs the pipeline over an intake. -/
def run {ω : Type} (e : Engine ω) (s : Session) (intake : List Artifact) (w : ω) :
    RunOutcome ω :=
  if s.state ≠ .ready then ⟨.error (s.notNow "run"), s, w⟩
  else
    match s.pipeline with
    | none => ⟨.error (.internal "ready session has no pipeline"), s, w⟩
    | some p =>
      match p.checkInputs (intake.map (·.mediaType)) with
      | .error err => ⟨.error err, s.fail err, w⟩
      | .ok () => ((s.opening intake w).run e p.steps).disarm

end Session

end MediaPipeline
