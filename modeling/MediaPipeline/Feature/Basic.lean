import MediaPipeline.Command
import MediaPipeline.Configuration.Json
/-!
# Feature — a transformation of media

A feature turns a configuration into a command, or says what is wrong with
the configuration. The features of this library follow a schema, which reads
typed settings from a closed list of paths and makes the command from the
settings alone. A catalog entry puts a name, the inputs it takes and a
presentation around a feature; an instance is an entry compiled against one
configuration.
-/


namespace MediaPipeline

/-- A single transformation. -/
structure Feature where
  compile : Configuration → Except Error Command

/-- Checks that a configuration compiles. -/
def Feature.validate (f : Feature) (c : Configuration) : Except Error Unit :=
  (f.compile c).map fun _ => ()

/-- A feature by its settings: the paths it reads, the settings it reads from
them, and the command it makes from the settings. -/
structure Schema where
  Settings : Type
  paths : List String
  parse : Configuration → Except Error Settings
  synthesize : Settings → Except Error Command

/-- The feature that follows a schema. -/
def Schema.toFeature (s : Schema) : Feature where
  compile c := do
    let settings ← s.parse c
    s.synthesize settings

/-! ## Presentation -/

/-- What is shown while a step runs. -/
structure Progress where
  label : String := "Processing ..."
  color : String := "#5596FF"
  deriving DecidableEq, Repr, Inhabited

/-- A presentation as a record. -/
def Progress.toJson (p : Progress) : Json :=
  .record [("label", .text p.label), ("color", .text p.color)]

/-! ## Entries and instances -/

/-- A feature as the catalog declares it. -/
structure Entry where
  key : String
  name : String
  description : String := ""
  intake : Intake
  progress : Progress := {}
  ui : Option String := none
  hidden : Bool := false
  defaults : Option Configuration := none
  feature : Feature

/-- A feature compiled against one configuration. -/
structure Instance where
  key : String
  name : String
  intake : Intake
  progress : Progress
  command : Command

/-- An entry compiled against a configuration. -/
def Entry.instantiate (e : Entry) (c : Configuration) : Except Error Instance :=
  (e.feature.compile c).map fun command => ⟨e.key, e.name, e.intake, e.progress, command⟩

/-- An instance as a record. -/
def Instance.toJson (i : Instance) : Json :=
  .record [("key", .text i.key), ("name", .text i.name), ("file_config", i.intake.toJson),
    ("progress", i.progress.toJson), ("command", i.command.toJson)]

end MediaPipeline
