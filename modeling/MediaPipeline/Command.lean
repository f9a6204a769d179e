import MediaPipeline.Intake
/-!
# Command — arguments for the transcoder

A command is the list of arguments that a feature adds between inputs and
output, and the container that the output switches to, if it does.
-/


namespace MediaPipeline

/-- Arguments for the transcoder. -/
structure Command where
  args : List String
  container : Option Container := none
  deriving DecidableEq, Repr, Inhabited

namespace Command

/-- The arguments in one line. -/
def text (c : Command) : String := String.intercalate " " c.args

/-- A command as a record; a container that is not switched is left out. -/
def toJson (c : Command) : Json :=
  .record (("args", .list Json.text c.args) ::
    match c.container with
    | none => []
    | some container => [("container", container.toJson)])

/-- The command that a value writes. -/
def ofJson? (v : Json) : Option Command := do
  let fields ← v.fields? ["args", "container"]
  let args ← fields.required "args" (Json.list? Json.text?)
  let container ← fields.withDefault "container" none (Json.option? Container.ofJson?)
  some ⟨args, container⟩

/-- The command that a JSON text writes. -/
def ofText? (s : String) : Option Command := (Json.read? s).bind ofJson?

end Command

end MediaPipeline
