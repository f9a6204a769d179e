import MediaPipeline.Decimal.Layout
import MediaPipeline.Error
import MediaPipeline.FilePath
import MediaPipeline.Registry.Node
import MediaPipeline.Text.Quoted
/-!
# CommandLine/Report — what is told to the user

A job tells lines and ends well or with a complaint. Lines of progress and
values that are measured are kept apart from what the inputs alone decide.
-/


namespace MediaPipeline

namespace CommandLine

/-- A line that is told. -/
inductive Line where
  | told (text : String)
  | progress (text : String)
  | measured (label value : String)
  deriving DecidableEq, Repr, Inhabited

/-- The text of a line. -/
def Line.text : Line → String
  | .told text => text
  | .progress text => text
  | .measured label value => label ++ value

/-- Why a job did not end well. -/
inductive Complaint where
  | failed (e : Error)
  | unreadable (what : String) (cause : String)
  | noInput (path : FilePath)
  | unconfigured (count : Nat)
  deriving DecidableEq, Repr

namespace Complaint

/-- The wording of a complaint. -/
def message : Complaint → String
  | .failed e => e.message
  | .unreadable what _ => s!"failed to read {what}"
  | .noInput path => s!"Input file does not exist: {Text.quoted path.text}"
  | .unconfigured count => s!"{count} step(s) are not configured"

/-- The cause of a complaint, where it is another failure. -/
def cause? : Complaint → Option String
  | .failed (.io cause) => some cause
  | .unreadable _ cause => some cause
  | _ => none

/-- A complaint with its cause. -/
def text (c : Complaint) : String :=
  let said := "Error: " ++ c.message
  match c.cause? with
  | some cause => said ++ "\n\nCaused by:\n    " ++ cause
  | none => said

end Complaint

/-- Milliseconds as seconds with two places. -/
def seconds (ms : Nat) : String := Decimal.fixed 2 (Float.ofNat ms / 1000) ++ "s"

/-- A command in the listing. -/
def nodeLine (depth : Nat) (name : String) (kind : Registry.Kind) (description : String) :
    String :=
  String.ofList (List.replicate (2 * depth) ' ') ++ s!"{name} ({kind.name})" ++
    if description = "" then "" else " - " ++ description

mutual

/-- A command and the commands below it, each on a line. -/
def treeLines (depth : Nat) : Registry.Node → List String
  | ⟨name, description, kind, _, child, _⟩ =>
    nodeLine depth name kind description :: rowLines (depth + 1) child

/-- The lines of commands that stand side by side. -/
def rowLines (depth : Nat) : List Registry.Node → List String
  | [] => []
  | n :: ns => treeLines depth n ++ rowLines depth ns

end

end CommandLine

end MediaPipeline
