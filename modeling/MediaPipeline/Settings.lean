import MediaPipeline.Error
import MediaPipeline.FilePath
/-!
# Settings — what the configuration file decides

Three sections, each with a default for everything: how the engine runs,
which catalog entries are left out, and how a session reports. Strict reading
refuses what is not a record of settings; lenient reading falls back to the
defaults. Settings that work but look like a mistake are named by `warnings`.
-/


namespace MediaPipeline

namespace Settings

/-- The most encoder threads that are handed to the engine. -/
def maxThreads : Nat := 8

/-- How the engine runs. -/
structure Engine where
  ffmpegPath : Option FilePath := none
  ffprobePath : Option FilePath := none
  threads : Option Nat := none
  stepTimeoutSecs : Nat := 3600
  overwrite : Bool := true
  deriving DecidableEq, Repr, Inhabited

/-- Which entries of the catalogs are left out of the registry. -/
structure Catalog where
  hiddenFeatures : List String := []
  disabledWorkflows : List String := []
  deriving DecidableEq, Repr, Inhabited

/-- How a session reports. -/
structure Session where
  eventCapacity : Nat := 256
  deriving DecidableEq, Repr, Inhabited

end Settings

/-- Everything that the configuration file decides. -/
structure Settings where
  engine : Settings.Engine := {}
  catalog : Settings.Catalog := {}
  session : Settings.Session := {}
  deriving DecidableEq, Repr, Inhabited

namespace Settings

/-- The number of encoder threads: the requested number, or that of the
processors where none is requested, but at least one and at most
`maxThreads`. -/
def Engine.effectiveThreads (e : Engine) (processors : Nat) : Nat :=
  let requested :=
    match e.threads with
    | some n => if n > 0 then n else processors
    | none => processors
  max 1 (min requested maxThreads)

/-! ## Warnings -/

/-- What looks like a mistake in the engine section. -/
def engineWarnings (e : Engine) : List String :=
  (match e.threads with
    | none => []
    | some n =>
      if n = 0 then ["engine.threads is 0; using detected CPU count"]
      else if n > maxThreads then
        [s!"engine.threads is {n}; it will be capped at {maxThreads}"]
      else [])
  ++ if e.stepTimeoutSecs = 0 then
      ["engine.step_timeout_secs is 0; every step will time out"]
    else []

/-- What looks like a mistake in the session section. -/
def sessionWarnings (s : Session) : List String :=
  if s.eventCapacity = 0 then ["session.event_capacity is 0; using 1"] else []

/-- The hidden features that are blank, by their position. -/
def catalogWarnings (c : Catalog) : List String :=
  (c.hiddenFeatures.zipIdx.filter fun e => Text.isBlankText e.1).map fun e =>
    s!"catalog.hidden_features[{e.2}] is empty"

/-- Settings that work but look like a mistake. -/
def warnings (s : Settings) : List String :=
  engineWarnings s.engine ++ sessionWarnings s.session ++ catalogWarnings s.catalog

/-! ## JSON form -/

/-- A path is written as its text. -/
def pathToJson (p : FilePath) : Json := .text p.text

/-- The path that a value writes. -/
def pathOfJson? (v : Json) : Option FilePath := v.text?.map FilePath.mk

/-- The engine section as a record. -/
def Engine.toJson (e : Engine) : Json :=
  .record [("ffmpeg_path", .option pathToJson e.ffmpegPath),
    ("ffprobe_path", .option pathToJson e.ffprobePath),
    ("threads", .option Json.nat e.threads),
    ("step_timeout_secs", .nat e.stepTimeoutSecs),
    ("overwrite", .bool e.overwrite)]

/-- The engine section that a value writes. -/
def Engine.ofJson? (v : Json) : Option Engine := do
  let fields ← v.fields? ["ffmpeg_path", "ffprobe_path", "threads", "step_timeout_secs",
    "overwrite"]
  let ffmpegPath ← fields.withDefault "ffmpeg_path" none (Json.option? pathOfJson?)
  let ffprobePath ← fields.withDefault "ffprobe_path" none (Json.option? pathOfJson?)
  let threads ← fields.withDefault "threads" none (Json.option? (Json.nat? 64))
  let timeout ← fields.withDefault "step_timeout_secs" 3600 (Json.nat? 64)
  let overwrite ← fields.withDefault "overwrite" true Json.bool?
  some ⟨ffmpegPath, ffprobePath, threads, timeout, overwrite⟩

/-- The catalog section as a record. -/
def Catalog.toJson (c : Catalog) : Json :=
  .record [("hidden_features", .list Json.text c.hiddenFeatures),
    ("disabled_workflows", .list Json.text c.disabledWorkflows)]

/-- The catalog section that a value writes. -/
def Catalog.ofJson? (v : Json) : Option Catalog := do
  let fields ← v.fields? ["hidden_features", "disabled_workflows"]
  let hidden ← fields.withDefault "hidden_features" [] (Json.list? Json.text?)
  let disabled ← fields.withDefault "disabled_workflows" [] (Json.list? Json.text?)
  some ⟨hidden, disabled⟩

/-- The session section as a record. -/
def Session.toJson (s : Session) : Json := .record [("event_capacity", .nat s.eventCapacity)]

/-- The session section that a value writes. -/
def Session.ofJson? (v : Json) : Option Session := do
  let fields ← v.fields? ["event_capacity"]
  let capacity ← fields.withDefault "event_capacity" 256 (Json.nat? 64)
  some ⟨capacity⟩

/-- Settings as a record. -/
def toJson (s : Settings) : Json :=
  .record [("engine", s.engine.toJson), ("catalog", s.catalog.toJson),
    ("session", s.session.toJson)]

/-- The settings that a value writes. -/
def ofJson? (v : Json) : Option Settings := do
  let fields ← v.fields? ["engine", "catalog", "session"]
  let engine ← fields.withDefault "engine" {} Engine.ofJson?
  let catalog ← fields.withDefault "catalog" {} Catalog.ofJson?
  let session ← fields.withDefault "session" {} Session.ofJson?
  some ⟨engine, catalog, session⟩

/-- The settings that a text writes. -/
def ofText (s : String) : Except Error Settings :=
  match (Json.read? s).bind ofJson? with
  | some settings => .ok settings
  | none => .error (.validation .settings)

/-- The settings that a text writes, or the defaults where there is no text
or none that can be read. -/
def ofTextOrDefault (s : Option String) : Settings :=
  match s with
  | none => {}
  | some text => (ofText text).toOption.getD {}

end Settings

end MediaPipeline
