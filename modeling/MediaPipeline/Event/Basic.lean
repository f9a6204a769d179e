import MediaPipeline.Id
import MediaPipeline.Json.Shape
/-!
# Event — what a session announces

An announcement tells one thing that happened: a change of state, a
selection, a compilation, the start or end of a step, the end of a run, or a
reset. In JSON it is a record with a tag beside its fields, or a list of the
tag and the fields; the tag may stand anywhere in the record.
-/


namespace MediaPipeline

/-- One thing that happened in a session. -/
inductive Announcement where
  | stateChanged (before after : String)
  | selected (commands : List String)
  | compiled (steps : Nat)
  | compileFailed (error : String)
  | stepStarted (index : Nat) (feature label color : String)
  | stepCompleted (index : Nat) (feature : String) (elapsedMs : Nat)
  | stepFailed (index : Nat) (feature error : String)
  | succeeded (steps : Nat)
  | reset
  deriving DecidableEq, Repr, Inhabited

namespace Announcement

/-- The name of the member that tells what happened. -/
def tagName : String := "type"

/-- What happened, in one word. -/
def tag : Announcement → String
  | .stateChanged _ _ => "state_changed"
  | .selected _ => "selected"
  | .compiled _ => "compiled"
  | .compileFailed _ => "compile_failed"
  | .stepStarted _ _ _ _ => "step_started"
  | .stepCompleted _ _ _ => "step_completed"
  | .stepFailed _ _ _ => "step_failed"
  | .succeeded _ => "succeeded"
  | .reset => "reset"

/-- The fields of an announcement beside its tag. -/
def fields : Announcement → List (String × Json)
  | .stateChanged before after => [("from", .text before), ("to", .text after)]
  | .selected commands => [("commands", .list Json.text commands)]
  | .compiled steps => [("steps", .nat steps)]
  | .compileFailed error => [("error", .text error)]
  | .stepStarted index feature label color =>
    [("index", .nat index), ("feature", .text feature), ("label", .text label),
      ("color", .text color)]
  | .stepCompleted index feature elapsedMs =>
    [("index", .nat index), ("feature", .text feature), ("elapsed_ms", .nat elapsedMs)]
  | .stepFailed index feature error =>
    [("index", .nat index), ("feature", .text feature), ("error", .text error)]
  | .succeeded steps => [("steps", .nat steps)]
  | .reset => []

/-- An announcement as a record. -/
def toJson (a : Announcement) : Json := .record ((tagName, .text a.tag) :: a.fields)

/-- The announcement with a tag and fields. -/
def ofFields? (tag : String) (v : Json) : Option Announcement :=
  match tag with
  | "state_changed" => do
    let fields ← v.fields? ["from", "to"]
    let before ← fields.required "from" Json.text?
    let after ← fields.required "to" Json.text?
    some (.stateChanged before after)
  | "selected" => do
    let fields ← v.fields? ["commands"]
    let commands ← fields.required "commands" (Json.list? Json.text?)
    some (.selected commands)
  | "compiled" => do
    let fields ← v.fields? ["steps"]
    let steps ← fields.required "steps" (Json.nat? 64)
    some (.compiled steps)
  | "compile_failed" => do
    let fields ← v.fields? ["error"]
    let error ← fields.required "error" Json.text?
    some (.compileFailed error)
  | "step_started" => do
    let fields ← v.fields? ["index", "feature", "label", "color"]
    let index ← fields.required "index" (Json.nat? 64)
    let feature ← fields.required "feature" Json.text?
    let label ← fields.required "label" Json.text?
    let color ← fields.required "color" Json.text?
    some (.stepStarted index feature label color)
  | "step_completed" => do
    let fields ← v.fields? ["index", "feature", "elapsed_ms"]
    let index ← fields.required "index" (Json.nat? 64)
    let feature ← fields.required "feature" Json.text?
    let elapsedMs ← fields.required "elapsed_ms" (Json.nat? 64)
    some (.stepCompleted index feature elapsedMs)
  | "step_failed" => do
    let fields ← v.fields? ["index", "feature", "error"]
    let index ← fields.required "index" (Json.nat? 64)
    let feature ← fields.required "feature" Json.text?
    let error ← fields.required "error" Json.text?
    some (.stepFailed index feature error)
  | "succeeded" => do
    let fields ← v.fields? ["steps"]
    let steps ← fields.required "steps" (Json.nat? 64)
    some (.succeeded steps)
  | "reset" => do
    let _ ← v.fields? []
    some .reset
  | _ => none

/-- The tag of a record or list and what stands beside it. -/
def untag? : Json → Option (String × Json)
  | .array (.text tag :: items) => some (tag, .array items)
  | .object members =>
    match members.filter (·.1.text == some tagName) with
    | [(_, .text tag)] => some (tag, .object (members.filter (·.1.text != some tagName)))
    | _ => none
  | _ => none

/-- The announcement that a value writes. All of the value is kept until its
tag is known, so every part of it must be held. -/
def ofJson? (v : Json) : Option Announcement := do
  guard v.isHeld
  let (tag, rest) ← untag? v
  ofFields? tag rest

/-- The announcement that a JSON text writes. -/
def ofText? (s : String) : Option Announcement := do
  let v ← Json.read? s
  guard (v.depth ≤ Json.maxDepth)
  ofJson? v

end Announcement

/-- An announcement on a bus: its number in the order of the bus and the
session that it is about. The time of day is left out, which nothing reads. -/
structure Event where
  number : Nat
  session : SessionId
  announcement : Announcement
  deriving DecidableEq, Repr, Inhabited

end MediaPipeline
