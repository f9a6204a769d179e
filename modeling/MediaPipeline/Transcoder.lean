import MediaPipeline.Session.Engine
import MediaPipeline.Toolbox
import MediaPipeline.Workspace
/-!
# Transcoder — the engine that calls the tool

The transcoder runs each step as one invocation on a host. It writes the
output of the step into its workspace and names it after the container that
the command chose, after the first input where that has the type of the
output, or after the type alone.
-/


namespace MediaPipeline

/-- An engine that calls the transcoding tool. -/
structure Transcoder where
  program : FilePath
  threads : Nat
  limitSecs : Nat
  overwrite : Bool
  workspace : Workspace
  deriving DecidableEq, Repr, Inhabited

namespace Transcoder

/-- A transcoder on a host, and the host with its workspace. -/
def start (tools : Toolbox) (s : Settings.Engine) (h : Host) :
    Except Error (Transcoder × Host) := do
  let program ← tools.ffmpeg
  let workspace := Workspace.inside h.scratch
  let files ← workspace.make h.files
  .ok (⟨program, s.effectiveThreads h.processors, s.stepTimeoutSecs, s.overwrite, workspace⟩,
    { h with files := files })

/-- The arguments that name the inputs. -/
def inputArgs (inputs : List Artifact) : List String :=
  inputs.flatMap fun a => ["-i", a.path.text]

/-- The invocation that runs a step and writes to an output. -/
def invocation (t : Transcoder) (r : Request) (output : FilePath) : Invocation where
  program := t.program
  args :=
    ["-hide_banner", "-nostdin", if t.overwrite then "-y" else "-n"] ++ inputArgs r.inputs ++
      r.command.args ++ ["-threads", toString t.threads, output.text]
  limitMs := 1000 * t.limitSecs

/-- The extension of an output that only its type decides. -/
def defaultExtension : MediaType → String
  | .video => "mp4"
  | .audio => "m4a"
  | .image => "png"
  | .other => "bin"

/-- The extension of the first input, if it has the type of the output. -/
def inheritedExtension? (r : Request) : Option String := do
  let first ← r.inputs.head?
  guard (first.mediaType = r.outputType)
  first.path.extension?

/-- The extension of the output of a step. -/
def outputExtension (r : Request) : String :=
  match r.command.container with
  | some c => c.extension
  | none =>
    match inheritedExtension? r with
    | some extension => extension.map Char.toLower
    | none => defaultExtension r.outputType

/-- Runs a step on a host. -/
def perform (t : Transcoder) (r : Request) (h : Host) : Except Error Artifact × Host :=
  match t.workspace.stepOutput h.files r.session r.index (outputExtension r) with
  | .error e => (.error e, h)
  | .ok (output, files) =>
    match (t.invocation r output).run { h with files := files } with
    | (.ok _, after) => (.ok ⟨output, r.outputType⟩, after)
    | (.error e, after) => (.error (.engine r.index r.feature e.message), after)

/-- Removes what a session left in the workspace, if it can be removed. -/
def discard (t : Transcoder) (session : SessionId) (h : Host) : Host :=
  match t.workspace.clear h.files session with
  | .ok (_, files) => { h with files := files }
  | .error _ => h

/-- The transcoder as an engine on a host. Nothing aborts its runs, and its
time is not counted. -/
def engine (t : Transcoder) : Engine Host where
  abortsBefore _ h := (false, h)
  call r h :=
    let (result, after) := t.perform r h
    (.finished result 0 false, after)
  abandon session h := t.discard session h

end Transcoder

end MediaPipeline
