import MediaPipeline.Workflow.Json
/-!
# Registry/Node — the tree of commands

A node is a command with the commands below it: a category that groups
commands, a feature, a workflow with its children, or an action of the
session. A node is found by the names on the way to it (`trail?`), by its
name alone in the order of the listing (`find?`), and the listing names every
node by its path (`paths`).
-/


namespace MediaPipeline

namespace Registry

/-- What a command is. -/
inductive Kind where
  | category
  | interactive
  | direct
  | workflow
  | action
  deriving DecidableEq, Repr, Inhabited

namespace Kind

/-- The name of a kind. -/
def name : Kind → String
  | .category => "category"
  | .interactive => "interactive"
  | .direct => "direct"
  | .workflow => "workflow"
  | .action => "action"

/-- Whether a command of a kind compiles to a pipeline. -/
def isCompilable : Kind → Bool
  | .category => false
  | .interactive => true
  | .direct => true
  | .workflow => true
  | .action => false

end Kind

/-- A command and the commands below it. -/
structure Node where
  name : String
  description : String := ""
  kind : Kind
  ui : Option String := none
  child : List Node := []
  steps : List Step := []
  deriving Repr, Inhabited

namespace Node

mutual

/-- The workflow that a node and the nodes below it describe. -/
def toWorkflow : Node → Workflow
  | ⟨name, description, _, _, child, steps⟩ => ⟨name, description, steps, toWorkflows child⟩

/-- The workflows that nodes describe. -/
def toWorkflows : List Node → List Workflow
  | [] => []
  | n :: ns => n.toWorkflow :: toWorkflows ns

end

mutual

/-- The first node with a name, the node itself before the nodes below
it. -/
def find? (name : String) : Node → Option Node
  | ⟨own, description, kind, ui, child, steps⟩ =>
    if own = name then some ⟨own, description, kind, ui, child, steps⟩
    else findIn? name child

/-- The first node with a name in a row of trees. -/
def findIn? (name : String) : List Node → Option Node
  | [] => none
  | n :: ns => (n.find? name).or (findIn? name ns)

end

/-- The path of a node below a path; a node below nothing has its name for a
path. -/
def pathBelow (path name : String) : String := if path = "" then name else path ++ "/" ++ name

mutual

/-- The node and the nodes below it with their paths, each before the nodes
below it. -/
def pathsBelow (path : String) : Node → List (String × Node)
  | ⟨name, description, kind, ui, child, steps⟩ =>
    (pathBelow path name, ⟨name, description, kind, ui, child, steps⟩) ::
      pathsIn (pathBelow path name) child

/-- The nodes of a row of trees with their paths. -/
def pathsIn (path : String) : List Node → List (String × Node)
  | [] => []
  | n :: ns => n.pathsBelow path ++ pathsIn path ns

end

/-- The first node with a name in a row, and its place in the row. -/
def pick? (name : String) (nodes : List Node) : Option (Nat × Node) :=
  (nodes.zipIdx.find? fun e => e.1.name == name).map fun e => (e.2, e.1)

/-- The nodes that names lead through, each with its place in its row. -/
def trail? (nodes : List Node) : List String → Option (List (Nat × Node))
  | [] => some []
  | name :: rest => do
    let (i, n) ← pick? name nodes
    let more ← trail? n.child rest
    some ((i, n) :: more)

mutual

/-- A node as a record; what it does not have is left out. -/
def toJson : Node → Json
  | ⟨name, description, kind, ui, child, steps⟩ =>
    .record ([("command", .text name), ("description", .text description),
        ("kind", .text kind.name)] ++
      (match ui with
        | none => []
        | some handle => [("ui", .text handle)]) ++
      (match child with
        | [] => []
        | n :: ns => [("child", .array (n.toJson :: rowJson ns))]) ++
      (if steps.isEmpty then [] else [("steps", .list Step.toJson steps)]))

/-- Nodes as values. -/
def rowJson : List Node → List Json
  | [] => []
  | n :: ns => n.toJson :: rowJson ns

end

end Node

end Registry

end MediaPipeline
