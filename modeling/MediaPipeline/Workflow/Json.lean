import MediaPipeline.Workflow.Basic
import MediaPipeline.Json.Shape
/-!
# Workflow/Json — workflows as JSON

A step is a record of its kind and its reference, a workflow a record of its
name, description, steps and children. Where the fields of a step are named,
its kind is one choice of two; in a list it is a plain text. Workflows nest,
so reading is given the number of containers that may still be nested.
-/


namespace MediaPipeline

namespace Step

/-- A step as a record. -/
def toJson : Step → Json
  | .feature key => .record [("kind", .text "feature"), ("ref", .text key)]
  | .workflow name => .record [("kind", .text "workflow"), ("ref", .text name)]

/-- The step of a kind with a reference. -/
def ofKind? (kind ref : String) : Option Step :=
  if kind = "feature" then some (.feature ref)
  else if kind = "workflow" then some (.workflow ref)
  else none

/-- The step that a value writes, with at most `room` containers nested. -/
def read? : Nat → Json → Option Step
  | 0, _ => none
  | room + 1, v => do
    let fields ← v.fields? ["kind", "ref"]
    let kind ← fields.required "kind" (if v.isList then Json.text? else Json.choice? room)
    let ref ← fields.required "ref" Json.text?
    ofKind? kind ref

/-- The step that a value writes. -/
def ofJson? (v : Json) : Option Step := read? v.depth v

/-- The step that a JSON text writes. -/
def ofText? (s : String) : Option Step := (Json.read? s).bind (read? Json.maxDepth)

end Step

namespace Workflow

mutual

/-- A workflow as a record; a workflow without children has no field for
them. -/
def toJson : Workflow → Json
  | ⟨name, description, steps, child⟩ =>
    .record ([("name", .text name), ("description", .text description),
        ("steps", .list Step.toJson steps)] ++
      match child with
      | [] => []
      | w :: ws => [("child", .array (w.toJson :: childJson ws))])

/-- Workflows as values. -/
def childJson : List Workflow → List Json
  | [] => []
  | w :: ws => w.toJson :: childJson ws

end

/-- The workflow that a value writes, with at most `room` containers nested:
the workflow, the list of its steps or children, and what is in them. -/
def read? : Nat → Json → Option Workflow
  | 0, _ => none
  | 1, _ => none
  | room + 2, v => do
    let fields ← v.fields? ["name", "description", "steps", "child"]
    let name ← fields.required "name" Json.text?
    let description ← fields.withDefault "description" "" Json.text?
    let steps ← fields.required "steps" (Json.list? (Step.read? room))
    let child ← fields.withDefault "child" [] (Json.list? (fun w => read? room w))
    some ⟨name, description, steps, child⟩

/-- The workflow that a value writes. -/
def ofJson? (v : Json) : Option Workflow := read? v.depth v

/-- The workflow that a JSON text writes. -/
def ofText? (s : String) : Option Workflow := (Json.read? s).bind (read? Json.maxDepth)

end Workflow

end MediaPipeline
