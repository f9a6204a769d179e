import MediaPipeline.Invocation
import MediaPipeline.Json.Basic
import MediaPipeline.Settings
/-!
# Toolbox — where the tools are

Two tools are looked for: the transcoder, which runs pipelines, and the
prober, which is only reported. A path from the settings wins when something
is there; otherwise the search path decides.
-/


namespace MediaPipeline

/-- The paths of the tools that were found. -/
structure Toolbox where
  ffmpeg? : Option FilePath := none
  ffprobe? : Option FilePath := none
  deriving DecidableEq, Repr, Inhabited

/-- What is known about a tool: where it is, and the first line with which it
names its version. -/
structure ToolReport where
  name : String
  version : Option String
  path : Option FilePath
  deriving DecidableEq, Repr, Inhabited

/-- Whether a tool was found. -/
def ToolReport.isAvailable (r : ToolReport) : Bool := r.path.isSome

/-- A report as a record. -/
def ToolReport.toJson (r : ToolReport) : Json :=
  .record [("name", .text r.name), ("available", .bool r.isAvailable),
    ("version", .option Json.text r.version),
    ("path", .option (fun (p : FilePath) => .text p.text) r.path)]

namespace Toolbox

/-- The name of the transcoder. -/
def ffmpegName : String := "ffmpeg"

/-- The name of the prober. -/
def ffprobeName : String := "ffprobe"

/-- Looks for a tool. -/
def locate (h : Host) (name : String) (configured : Option FilePath) : Option FilePath :=
  match configured with
  | some path => if h.files.holds path then some path else h.which? name
  | none => h.which? name

/-- Looks for both tools. -/
def discover (h : Host) (s : Settings.Engine) : Toolbox :=
  ⟨locate h ffmpegName s.ffmpegPath, locate h ffprobeName s.ffprobePath⟩

/-- The toolbox with a transcoder that is not looked for. -/
def withFfmpeg (t : Toolbox) (p : FilePath) : Toolbox := { t with ffmpeg? := some p }

/-- The path of the transcoder, without which nothing runs. -/
def ffmpeg (t : Toolbox) : Except Error FilePath :=
  match t.ffmpeg? with
  | some p => .ok p
  | none => .error (.tool ffmpegName .notFound)

/-! ## Reports -/

/-- The first line that a tool writes when it is asked for its version. -/
def versionLine (h : Host) (p : FilePath) : Option String × Host :=
  match h.perform p ["-version"] with
  | .error _ => (none, h)
  | .ok (conduct, after) =>
    if conduct.ending.isSuccess then
      ((Text.lines (Text.Utf8.decodeLossy conduct.output)).head?, after)
    else (none, after)

/-- The report on a tool. -/
def report (h : Host) (name : String) (path : Option FilePath) : ToolReport × Host :=
  match path with
  | none => (⟨name, none, none⟩, h)
  | some p =>
    let (version, after) := versionLine h p
    (⟨name, version, path⟩, after)

/-- The reports on all tools. -/
def reports (t : Toolbox) (h : Host) : List ToolReport × Host :=
  let (first, between) := report h ffmpegName t.ffmpeg?
  let (second, after) := report between ffprobeName t.ffprobe?
  ([first, second], after)

end Toolbox

end MediaPipeline
