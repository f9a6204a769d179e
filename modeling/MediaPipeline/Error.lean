import MediaPipeline.Intake
import MediaPipeline.Decimal.Layout
/-!
# Error — what can go wrong

One type for every failure, by its cause. The first kinds are faults of what
the user gave and can be mended and tried again; a fault of the registry is a
fault of the catalogs; the rest is about running. A fault that is stated in
words comes from a feature or an engine outside this library.
-/


namespace MediaPipeline

/-- What is wrong with a value of a configuration. -/
inductive ConfigurationFault where
  | missing
  | wrongKind (expected found shown : String)
  | notFinite (x : Float)
  | notNatural (x : Float)
  | notRatio (text : String)
  | ratioNotPositive (x : Float)
  | dimensionOutOfRange (most found : Nat)
  | negativeTime (x : Float)
  | rateOutOfRange (most found : Nat)
  | unknownPreset (text : String)
  | unknownFormat (name : UnknownName)
  | levelOutOfRange (most found : Float)
  | noArguments
  | unreadable
  | unreadableSteps
  | notGiven (index : Nat) (feature : String)
  | stated (text : String)
  deriving DecidableEq, Repr

/-- The wording of a configuration fault. -/
def ConfigurationFault.message : ConfigurationFault → String
  | .missing => "required value is missing"
  | .wrongKind expected found shown => s!"expected {expected}, found {found} `{shown}`"
  | .notFinite x => s!"{Decimal.plain x} is not finite"
  | .notNatural x => s!"expected a non-negative integer, found {Decimal.plain x}"
  | .notRatio text => s!"`{text}` is not W:H"
  | .ratioNotPositive x => s!"ratio must be positive, got {Decimal.plain x}"
  | .dimensionOutOfRange most n => s!"dimension must be between 1 and {most}, got {n}"
  | .negativeTime x => s!"time must not be negative, got {Decimal.plain x}"
  | .rateOutOfRange most n => s!"CRF must be between 0 and {most}, got {n}"
  | .unknownPreset text => s!"unknown preset `{text}`"
  | .unknownFormat name => name.message
  | .levelOutOfRange most x =>
    s!"level must be in (0, {Decimal.plain most}], got {Decimal.plain x}"
  | .noArguments => "no arguments given"
  | .unreadable => "invalid configuration: not a tree of values"
  | .unreadableSteps => "invalid step configurations: not trees of values by step"
  | .notGiven index feature => s!"step {index} ({feature}) needs a configuration"
  | .stated text => text

/-- A relation between values that a feature needs and does not find. -/
inductive Violation where
  | ratioMismatch (width height : Nat) (actual declared : Float)
  | startNotBeforeEnd (start stop : Float)
  | managedArgument (arg : String)
  | stated (text : String)
  deriving DecidableEq, Repr

/-- The wording of a violation. -/
def Violation.message : Violation → String
  | .ratioMismatch w h actual declared =>
    s!"{w}x{h} has ratio {Decimal.fixed 6 actual}, declared {Decimal.fixed 6 declared}"
  | .startNotBeforeEnd start stop =>
    s!"start {Decimal.plain start}s must be before end {Decimal.plain stop}s"
  | .managedArgument arg => s!"`{arg}` is managed by the engine and cannot be overridden"
  | .stated text => text

/-- What is wrong with the catalogs. -/
inductive RegistryFault where
  | duplicateKey (key : String)
  | duplicateCommand (name scope : String)
  | noDefaults (key : String)
  | emptyWorkflow (name : String)
  | unknownFeature (workflow key : String)
  | unknownWorkflow (workflow name : String)
  | selfReference (name : String) (via : List String)
  | cycle (chain : List String)
  | stated (text : String)
  deriving DecidableEq, Repr

/-- Names one after the other. -/
def chainText (names : List String) : String := String.intercalate " -> " names

/-- The wording of a registry fault. -/
def RegistryFault.message : RegistryFault → String
  | .duplicateKey key => s!"duplicate feature key `{key}`"
  | .duplicateCommand name scope => s!"duplicate command `{name}` in {scope}"
  | .noDefaults key => s!"direct feature `{key}` has no default configuration"
  | .emptyWorkflow name => s!"workflow `{name}` has no steps"
  | .unknownFeature workflow key => s!"workflow `{workflow}` references unknown feature `{key}`"
  | .unknownWorkflow workflow name =>
    s!"workflow `{workflow}` references unknown workflow `{name}`"
  | .selfReference name via => s!"workflow `{name}` references itself via {chainText via}"
  | .cycle chain => s!"workflow cycle: {chainText chain}"
  | .stated text => text

/-- What is wrong with a request or a file. -/
inductive ValidationFault where
  | intake (fault : IntakeFault)
  | settings
  | notCompilable (path kind : String)
  | nothingToCompile
  | nothingSelected
  | mixedAction
  | noSuchStep (index count : Nat)
  | stated (text : String)
  deriving DecidableEq, Repr

/-- The wording of a validation fault. -/
def ValidationFault.message : ValidationFault → String
  | .intake fault => fault.message
  | .settings => "invalid config: not a record of settings"
  | .notCompilable path kind => s!"`{path}` is a {kind} and cannot be compiled"
  | .nothingToCompile => "nothing selected to compile"
  | .nothingSelected => "nothing selected"
  | .mixedAction => "an action cannot be combined with other commands"
  | .noSuchStep index count => s!"no step {index} in the selection ({count} step(s))"
  | .stated text => text

/-- What a tool did wrong, or what went wrong with it. -/
inductive ToolFault where
  | notFound
  | notStarted (cause : String)
  | outOfTime (seconds : Nat)
  | failed (status : String) (lastLines : List String)
  | noScratch (cause : String)
  | noOutput (path : String)
  | noBackup (cause : String)
  | noCopy (cause : String)
  | stated (text : String)
  deriving DecidableEq, Repr

/-- The wording of a tool fault. -/
def ToolFault.message : ToolFault → String
  | .notFound => "ffmpeg not found; install it or set engine.ffmpeg_path"
  | .notStarted cause => s!"failed to spawn: {cause}"
  | .outOfTime seconds => s!"timed out after {seconds}s"
  | .failed status lastLines => status ++ ": " ++ String.intercalate " | " lastLines
  | .noScratch cause => s!"failed to create temp dir: {cause}"
  | .noOutput path => s!"output file does not exist: {path}"
  | .noBackup cause => s!"failed to create backup: {cause}"
  | .noCopy cause => s!"failed to copy output to destination: {cause}"
  | .stated text => text

/-- A failure. -/
inductive Error where
  | configuration (path : String) (fault : ConfigurationFault)
  | invariant (feature : String) (violation : Violation)
  | incompatible (workflow : String) (producer consumer : Nat) (reason : String)
  | unsupportedInput (step : Nat) (feature reason : String)
  | registry (fault : RegistryFault)
  | engine (step : Nat) (feature reason : String)
  | transition (state action : String)
  | cancelled
  | notFound (entity name : String)
  | tool (name : String) (fault : ToolFault)
  | io (cause : String)
  | validation (fault : ValidationFault)
  | internal (text : String)
  deriving DecidableEq, Repr

namespace Error

/-- The wording of a failure. -/
def message : Error → String
  | .configuration path fault => s!"Configuration error at `{path}`: {fault.message}"
  | .invariant feature violation => s!"Invariant violated in {feature}: {violation.message}"
  | .incompatible workflow producer consumer reason =>
    s!"Incompatible steps {producer} -> {consumer} in {workflow}: {reason}"
  | .unsupportedInput step feature reason =>
    s!"Unsupported input for step {step} ({feature}): {reason}"
  | .registry fault => s!"Registry construction error: {fault.message}"
  | .engine step feature reason => s!"Engine error at step {step} ({feature}): {reason}"
  | .transition state action => s!"Cannot {action} while session is {state}"
  | .cancelled => "Execution cancelled"
  | .notFound entity name => s!"{entity} not found: {name}"
  | .tool name fault => s!"Tool error [{name}]: {fault.message}"
  | .io cause => s!"IO error: {cause}"
  | .validation fault => s!"Validation error: {fault.message}"
  | .internal text => s!"Internal error: {text}"

/-- Whether the user can mend a failure by mending what was given. -/
def isUserError : Error → Bool
  | .configuration _ _ => true
  | .invariant _ _ => true
  | .unsupportedInput _ _ _ => true
  | _ => false

/-- The step a failure is about; of two steps that do not fit, the one that
consumes. -/
def stepIndex? : Error → Option Nat
  | .incompatible _ _ consumer _ => some consumer
  | .unsupportedInput step _ _ => some step
  | .engine step _ _ => some step
  | _ => none

end Error

end MediaPipeline
