import MediaPipeline.FilePath
import MediaPipeline.Registry.Selection
/-!
# CommandLine/Arguments — what is asked for

The arguments name a job and its options. Options have a long name and may
have a letter; a value follows its option or is attached to it, and letters
without values may stand together. Two options, the settings file and the
verbose mode, may be given before the job or after it. Reading stops at the
first argument that asks for help or does not fit.
-/


namespace MediaPipeline

namespace CommandLine

/-- Why arguments do not fit. -/
inductive Misuse where
  | unknown (arg : String)
  | unwantedValue (name : String)
  | noValue (name : String)
  | badValue (name value : String)
  | repeated (name : String)
  | surplus (arg : String)
  | unknownJob (name : String)
  | noJob
  | notGiven (name : String)
  deriving DecidableEq, Repr

/-- The wording of a misuse. -/
def Misuse.message : Misuse → String
  | .unknown arg => s!"unexpected option {arg}"
  | .unwantedValue name => s!"{name} takes no value"
  | .noValue name => s!"{name} needs a value"
  | .badValue name value => s!"{name} does not accept '{value}'"
  | .repeated name => s!"{name} is given more than once"
  | .surplus arg => s!"unexpected argument '{arg}'"
  | .unknownJob name => s!"unknown command '{name}'"
  | .noJob => "no command is given"
  | .notGiven name => s!"{name} is not given"

/-- Why reading stops before a job is known. -/
inductive Stop where
  | help
  | version
  | misuse (m : Misuse)
  deriving DecidableEq, Repr

/-- Reading that stops at arguments that do not fit. -/
def misused {α : Type} (m : Misuse) : Except Stop α := .error (.misuse m)

/-! ## Options -/

/-- The number that an argument writes, if it fits in 64 bits. A plus may
stand before the digits. -/
def number? (s : String) : Option Nat :=
  let digits :=
    match s.toList with
    | '+' :: rest => rest
    | all => all
  let n := Text.naturalOf digits
  if digits.isEmpty || !digits.all Text.isDigit || Nat.pow 2 64 ≤ n then none else some n

/-- What stands for a value. -/
inductive ValueKind where
  | text
  | path
  | number
  deriving DecidableEq, Repr

/-- Whether an argument is a value of a kind. -/
def ValueKind.accepts : ValueKind → String → Bool
  | .text, _ => true
  | .path, s => s != ""
  | .number, s => (number? s).isSome

/-- An option: its name, its letter, the kind of its value if it takes one,
and whether it may be repeated. -/
structure OptionRule where
  name : String
  letter : Option Char := none
  value : Option ValueKind := none
  repeats : Bool := false
  deriving DecidableEq, Repr

/-- An operand: its name and the kind of its value. -/
structure OperandRule where
  name : String
  value : ValueKind
  deriving DecidableEq, Repr

/-- What may be given at a level: before the job, or after it. -/
structure Level where
  options : List OptionRule
  operands : List OperandRule := []
  isOuter : Bool := false
  deriving Repr

/-- What was given at a level, in order: options by their names, and
operands. -/
structure Given where
  options : List (String × String) := []
  operands : List String := []
  deriving DecidableEq, Repr, Inhabited

namespace Given

/-- The values of an option. -/
def all (g : Given) (name : String) : List String :=
  (g.options.filter (·.1 == name)).map (·.2)

/-- The path that an option gives. -/
def path? (g : Given) (name : String) : Option FilePath := (g.all name).head?.map FilePath.mk

/-- Whether an option is given. -/
def has (g : Given) (name : String) : Bool := !(g.all name).isEmpty

end Given

/-! ## Reading a level -/

/-- What was given, and the option that waits for its value. -/
abbrev Reading := Given × Option OptionRule

/-- Takes an option with its value; an option without one has an empty
text. -/
def record (g : Given) (rule : OptionRule) (value : String) : Except Stop Given :=
  if !rule.repeats && g.has rule.name then misused (.repeated rule.name)
  else if rule.value.any fun kind => !kind.accepts value then misused (.badValue rule.name value)
  else .ok { g with options := g.options ++ [(rule.name, value)] }

/-- Reads an option by its name, with a value attached by an equals sign. -/
def readNamed (l : Level) (g : Given) (body : String) : Except Stop Reading :=
  let (name, attached) :=
    match Text.cutAt? '=' body with
    | some (name, value) => (name, some value)
    | none => (body, none)
  if name = "help" && attached.isNone then .error .help
  else if name = "version" && l.isOuter && attached.isNone then .error .version
  else
    match l.options.find? (·.name == name) with
    | none => misused (.unknown ("--" ++ body))
    | some rule =>
      match rule.value, attached with
      | none, none => (record g rule "").map fun g => (g, none)
      | none, some _ => misused (.unwantedValue name)
      | some _, none => .ok (g, some rule)
      | some _, some value => (record g rule value).map fun g => (g, none)

/-- Reads options by their letters. What follows the letter of an option with
a value is that value, without an equals sign before it. -/
def readLetters (l : Level) (g : Given) : List Char → Except Stop Reading
  | [] => .ok (g, none)
  | c :: rest =>
    if c = 'h' then .error .help
    else if c = 'V' && l.isOuter then .error .version
    else
      match l.options.find? (·.letter == some c) with
      | none => misused (.unknown (String.ofList ['-', c]))
      | some rule =>
        match rule.value, rest with
        | none, _ => do readLetters l (← record g rule "") rest
        | some _, [] => .ok (g, some rule)
        | some _, '=' :: value =>
          (record g rule (String.ofList value)).map fun g => (g, none)
        | some _, value => (record g rule (String.ofList value)).map fun g => (g, none)

/-- Takes an operand. -/
def operand (l : Level) (g : Given) (arg : String) : Except Stop Given :=
  match l.operands[g.operands.length]? with
  | none => misused (.surplus arg)
  | some rule =>
    if rule.value.accepts arg then .ok { g with operands := g.operands ++ [arg] }
    else misused (.badValue rule.name arg)

/-- Whether an argument is an option; a lone hyphen is not. -/
def isOption (arg : String) : Bool :=
  match arg.toList with
  | '-' :: _ :: _ => true
  | _ => false

/-- Reads an option. -/
def readOption (l : Level) (g : Given) (arg : String) : Except Stop Reading :=
  match arg.toList with
  | '-' :: '-' :: body => readNamed l g (String.ofList body)
  | _ :: letters => readLetters l g letters
  | [] => .ok (g, none)

/-- Reads the arguments of a level. The outer level ends at the name of the
job, which is given with the arguments after it. -/
def readLevel (l : Level) (g : Given) (waiting : Option OptionRule) :
    List String → Except Stop (Given × Option (String × List String))
  | [] =>
    match waiting with
    | some rule => misused (.noValue rule.name)
    | none => .ok (g, none)
  | arg :: rest =>
    match waiting with
    | some rule =>
      if isOption arg then misused (.noValue rule.name)
      else do readLevel l (← record g rule arg) none rest
    | none =>
      if arg = "--" then do .ok (← rest.foldlM (operand l) g, none)
      else if isOption arg then do
        let (g', waiting') ← readOption l g arg
        readLevel l g' waiting' rest
      else if l.isOuter then .ok (g, some (arg, rest))
      else do readLevel l (← operand l g arg) none rest

/-! ## Jobs -/

/-- A command of the registry with the configurations of its steps. -/
structure Target where
  path : String
  steps : Option FilePath := none
  child : List Nat := []
  deriving DecidableEq, Repr

/-- The selection of a target. -/
def Target.selection (t : Target) : Selection := ⟨t.path, t.child⟩

/-- What is to be done. -/
inductive Job where
  | list (json : Bool)
  | compile (target : Target)
  | run (target : Target) (inputs : List FilePath) (output : Option FilePath)
  | checkTools
  | validate (file : Option FilePath)
  deriving DecidableEq, Repr

/-- A job with the options that every job has. -/
structure Order where
  settings : Option FilePath
  verbose : Bool
  job : Job
  deriving DecidableEq, Repr

/-- The option for the settings file. -/
def settingsOption : OptionRule := { name := "config", letter := some 'c', value := some .path }

/-- The option for the verbose mode. -/
def verboseOption : OptionRule := { name := "verbose", letter := some 'v' }

/-- The options that may be given before the job or after it. -/
def commonOptions : List OptionRule := [settingsOption, verboseOption]

/-- The option for a file of step configurations. -/
def stepsOption : OptionRule := { name := "steps", letter := some 's', value := some .path }

/-- The option for a child to go on with. -/
def childOption : OptionRule := { name := "child", value := some .number, repeats := true }

/-- The option for an input file. -/
def inputOption : OptionRule :=
  { name := "input", letter := some 'i', value := some .path, repeats := true }

/-- The option for the output file. -/
def outputOption : OptionRule := { name := "output", letter := some 'o', value := some .path }

/-- The operand for the path of a command. -/
def pathOperand : OperandRule := ⟨"path", .text⟩

/-- The level before the job. -/
def outerLevel : Level := { options := commonOptions, isOuter := true }

/-- The levels of the jobs by their names. -/
def jobLevels : List (String × Level) :=
  [("list", { options := { name := "json" } :: commonOptions }),
   ("compile",
    { options := stepsOption :: childOption :: commonOptions, operands := [pathOperand] }),
   ("run",
    { options := inputOption :: stepsOption :: childOption :: outputOption :: commonOptions
      operands := [pathOperand] }),
   ("check-tools", { options := commonOptions }),
   ("validate", { options := [verboseOption], operands := [⟨"config", .path⟩] })]

/-- The target that was given. -/
def target (g : Given) : Except Stop Target :=
  match g.operands with
  | path :: _ => .ok ⟨path, g.path? stepsOption.name, (g.all childOption.name).filterMap number?⟩
  | [] => misused (.notGiven pathOperand.name)

/-- The job with a name, by what was given after it. -/
def job (name : String) (g : Given) : Except Stop Job :=
  match name with
  | "list" => .ok (.list (g.has "json"))
  | "compile" => (target g).map .compile
  | "run" => do
    let t ← target g
    match (g.all inputOption.name).map FilePath.mk with
    | [] => misused (.notGiven inputOption.name)
    | inputs => .ok (.run t inputs (g.path? outputOption.name))
  | "check-tools" => .ok .checkTools
  | _ => .ok (.validate (g.operands.head?.map FilePath.mk))

/-- Asks for help on a job. -/
def helpOn (names : List String) : Stop :=
  match names with
  | [] => .help
  | [name] =>
    if name = "help" || (jobLevels.lookup name).isSome then .help
    else .misuse (.unknownJob name)
  | _ :: name :: _ => .misuse (.unknownJob name)

/-- Reads arguments. The settings file that is given after the job wins. -/
def read (args : List String) : Except Stop Order := do
  let (before, named) ← readLevel outerLevel {} none args
  match named with
  | none => misused .noJob
  | some (name, rest) =>
    match jobLevels.lookup name with
    | none => if name = "help" then .error (helpOn rest) else misused (.unknownJob name)
    | some level =>
      let (after, _) ← readLevel level {} none rest
      let settings := (after.path? settingsOption.name).or (before.path? settingsOption.name)
      .ok ⟨settings, before.has verboseOption.name || after.has verboseOption.name,
        ← job name after⟩

end CommandLine

end MediaPipeline
