import MediaPipeline.CommandLine.Arguments
import MediaPipeline.CommandLine.Report
import MediaPipeline.Json.Printer
import MediaPipeline.Registry.Lookup
import MediaPipeline.Session.Run
import MediaPipeline.Transcoder
/-!
# CommandLine/Jobs — doing what is asked for

A job reads files of a host, tells lines, and may leave files behind. It is a
computation over a desk: the host and the lines told so far, which stay told
if the job ends with a complaint.
-/


namespace MediaPipeline

namespace CommandLine

/-- A host, and the lines that were told, the last one first. -/
structure Desk where
  host : Host
  told : List Line := []

/-- A computation over a desk that may end with a complaint. -/
abbrev Work (α : Type) := ExceptT Complaint (StateM Desk) α

namespace Work

/-- Tells a line. -/
def say (line : Line) : Work Unit := modify fun d => { d with told := line :: d.told }

/-- Tells a text. -/
def tell (text : String) : Work Unit := say (.told text)

/-- The host as it is now. -/
def host : Work Host := do return (← get).host

/-- Puts another host in the place of the host. -/
def leave (h : Host) : Work Unit := modify fun d => { d with host := h }

/-- A result that may be a failure. -/
def lift {α : Type} : Except Error α → Work α
  | .ok a => pure a
  | .error e => throw (.failed e)

/-- The text of a file. -/
def textOf (p : FilePath) (what : String) : Work String := do
  match (← host).files.readText p with
  | .ok text => pure text
  | .error f => throw (.unreadable what f.message)

end Work

open Work

/-! ## Settings and configurations -/

/-- The settings in a file, or the defaults if it cannot be read. -/
def settingsIn (p : Option FilePath) : Work Settings := do
  let files := (← host).files
  return .ofTextOrDefault (p.bind fun p => (files.readText p).toOption)

/-- The step configurations in a file; none without a file. -/
def configsIn (p : Option FilePath) : Work StepConfigs := do
  match p with
  | none => return .empty
  | some p => lift (StepConfigs.ofText (← textOf p s!"step configurations from {p.text}"))

/-! ## Listing and compiling -/

/-- Tells the tree of commands. -/
def list (s : Settings) (json : Bool) : Work Unit := do
  let registry ← lift (Registry.builtin s.catalog)
  if json then tell (Json.list Registry.Node.toJson registry.roots).pretty
  else (rowLines 0 registry.roots).forM tell

/-- Tells the commands of all steps of a target. -/
def compile (s : Settings) (t : Target) : Work Unit := do
  let registry ← lift (Registry.builtin s.catalog)
  let configs ← configsIn t.steps
  let pipeline ← lift (registry.compile t.selection configs)
  tell s!"{pipeline.name} ({pipeline.size} steps)"
  pipeline.steps.forM fun step => tell s!"  [{step.index}] {step.name}: {step.command.text}"

/-! ## Running -/

/-- The path next to an input that takes the output, with the extension of
what was produced. -/
def outputBeside (input produced : FilePath) : FilePath :=
  let stem := input.stem?.getD "output"
  let extension :=
    match produced.extension? with
    | some e => "." ++ e
    | none => ""
  input.withFileName (stem ++ "-clipforge" ++ extension)

/-- The line of progress that an announcement gives. -/
def progressLine? : Announcement → Option Line
  | .stepStarted index _ label _ => some (.progress s!"  [{index}] {label}")
  | .stepFailed index _ error => some (.progress s!"  [{index}] failed: {error}")
  | _ => none

/-- The session after an operation, if it is allowed and done. -/
def settle {α : Type} (o : Session.Outcome α) : Work (α × Session) := do
  return (← lift o.result, o.session)

/-- A session that has chosen a target and configured its steps. -/
def prepare (registry : Registry) (t : Target) : Work Session := do
  let (_, chosen) ← settle ((Session.start default registry).select [t.selection])
  let configs ← configsIn t.steps
  let configured ← configs.entries.foldlM (fun (s : Session) e => do
    return (← settle (s.configure e.1 e.2)).2) chosen
  let pending ← lift configured.pendingConfiguration
  if pending.isEmpty then return configured
  pending.forM fun p =>
    tell s!"Step {p.index} ({p.entry.name}) needs a configuration; pass one with --steps"
  throw (.unconfigured pending.length)

/-- Runs a session that is ready, tells its progress, and gives its report. -/
def perform (transcoder : Transcoder) (session : Session) (inputs : List FilePath) :
    Work Session.Report := do
  let o := session.run transcoder.engine (inputs.map Artifact.ofPath) (← host)
  leave o.world
  ((o.session.announcedSince session.journal.length).filterMap progressLine?).forM say
  lift o.result

/-- Delivers the output of a run and tells its report. -/
def conclude (r : Session.Report) (destination : FilePath) : Work Unit := do
  let h ← host
  let (delivered, files) := Workspace.deliver h.files r.output.path destination none
  leave { h with files := files }
  let written ← lift delivered
  tell ""
  tell "Processing complete!"
  r.steps.forM fun step =>
    say (.measured s!"  [{step.index}] {step.feature} in " (seconds step.elapsedMs))
  say (.measured "Total encode time: " (seconds r.totalElapsedMs))
  tell s!"Output: {written.text}"

/-- Runs a target on inputs with a transcoder. -/
def runWith (transcoder : Transcoder) (registry : Registry) (t : Target) (inputs : List FilePath)
    (output : Option FilePath) : Work Unit := do
  let prepared ← prepare registry t
  let (pipeline, ready) ← settle prepared.submit
  tell s!"Running {pipeline.name} ({pipeline.size} steps)"
  let report ← perform transcoder ready inputs
  conclude report (output.getD (outputBeside (inputs.headD default) report.output.path))

/-- Runs a target on inputs. The workspace is removed in the end, whether the
run succeeds or not. -/
def run (s : Settings) (t : Target) (inputs : List FilePath) (output : Option FilePath) :
    Work Unit := do
  let h ← host
  match inputs.find? fun p => !h.files.holds p with
  | some missing => throw (.noInput missing)
  | none =>
    let registry ← lift (Registry.builtin s.catalog)
    let (transcoder, started) ← lift (Transcoder.start (.discover h s.engine) s.engine h)
    leave started
    let cleanUp : Work Unit := do
      let after ← host
      leave { after with files := transcoder.workspace.discard after.files }
    try runWith transcoder registry t inputs output
    catch complaint => do
      cleanUp
      throw complaint
    cleanUp

/-! ## Checking -/

/-- What is told about a tool. -/
def toolLine (r : ToolReport) : String :=
  let mark := if r.isAvailable then "✓" else "✗"
  let version :=
    match r.version with
    | some version => s!" ({version})"
    | none => ""
  let path :=
    match r.path with
    | some path => " - " ++ path.text
    | none => ""
  mark ++ " " ++ r.name ++ version ++ path

/-- Tells which tools are there. -/
def checkTools (s : Settings) : Work Unit := do
  tell "Checking external tools..."
  tell ""
  let h ← host
  let (reports, after) := (Toolbox.discover h s.engine).reports h
  leave after
  reports.forM fun r => tell (toolLine r)
  tell ""
  if reports.all (·.isAvailable) then tell "All required tools are available!"
  else tell "Some tools are missing. Install ffmpeg to run pipelines."

/-- The settings in a file, which must be readable; the defaults without a
file. -/
def strictSettings (file : Option FilePath) : Work Settings := do
  match file with
  | some p =>
    tell s!"Validating config: {Text.quoted p.text}"
    let settings ← lift (Settings.ofText (← textOf p p.text))
    tell "✓ Configuration is valid"
    return settings
  | none =>
    tell "No config file specified, using defaults"
    return {}

/-- Tells what the settings decide, and what looks like a mistake in them. -/
def validate (file : Option FilePath) : Work Unit := do
  let s ← strictSettings file
  say (.measured "  Engine threads: "
    (toString (s.engine.effectiveThreads (← host).processors)))
  tell s!"  Step timeout: {s.engine.stepTimeoutSecs}s"
  tell s!"  Overwrite outputs: {s.engine.overwrite}"
  tell s!"  Hidden features: {s.catalog.hiddenFeatures.length}"
  tell s!"  Disabled workflows: {s.catalog.disabledWorkflows.length}"
  let registry ← lift (Registry.builtin s.catalog)
  tell s!"  Commands: {registry.paths.length}"
  if !s.warnings.isEmpty then
    tell ""
    tell "Warnings:"
    s.warnings.forM fun w => tell ("  - " ++ w)

/-! ## The program -/

/-- Does a job. -/
def work (o : Order) : Work Unit :=
  match o.job with
  | .list json => do list (← settingsIn o.settings) json
  | .compile t => do compile (← settingsIn o.settings) t
  | .run t inputs output => do run (← settingsIn o.settings) t inputs output
  | .checkTools => do checkTools (← settingsIn o.settings)
  | .validate file => validate (file.or o.settings)

/-- How to use the program. -/
def usage : String :=
  "Usage: clipforge [-c FILE] [-v] COMMAND\n\n" ++
  "  list [--json]\n" ++
  "  compile PATH [-s FILE] [--child INDEX]...\n" ++
  "  run PATH -i FILE... [-s FILE] [--child INDEX]... [-o FILE]\n" ++
  "  check-tools\n" ++
  "  validate [FILE]"

/-- The name and version of the program. -/
def versionText : String := "clipforge 0.1.0"

/-- What the program leaves behind: its exit code, what it told, what it
complained about, and the host. -/
structure Outcome where
  exitCode : Nat
  lines : List Line := []
  complaint : String := ""
  host : Host

/-- What the program does with its arguments. -/
def respond (args : List String) (h : Host) : Outcome :=
  match read args with
  | .error .help => ⟨0, [.told usage], "", h⟩
  | .error .version => ⟨0, [.told versionText], "", h⟩
  | .error (.misuse m) => ⟨2, [], s!"error: {m.message}\n\n{usage}", h⟩
  | .ok order =>
    let (result, desk) := (work order).run.run ⟨h, []⟩
    match result with
    | .ok () => ⟨0, desk.told.reverse, "", desk.host⟩
    | .error c => ⟨1, desk.told.reverse, c.text, desk.host⟩

end CommandLine

end MediaPipeline
