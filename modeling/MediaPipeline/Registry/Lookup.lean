import MediaPipeline.Pipeline
import MediaPipeline.Registry.Build
import MediaPipeline.Registry.Selection
/-!
# Registry/Lookup — commands found and compiled

A selection is resolved to a workflow and a path of child indices: the first
command on its path that compiles owns the pipeline, and the commands below
it are children to go on with. Several selections compile to one pipeline, in
their order, with places that run through all of them.
-/


namespace MediaPipeline

namespace Registry

/-- The nodes that a path leads through, each with its place in its row. -/
def trail? (r : Registry) (path : String) : Option (List (Nat × Node)) :=
  match Selection.segments path with
  | [] => none
  | names => Node.trail? r.roots names

/-- The node that a path leads to. -/
def get? (r : Registry) (path : String) : Option Node :=
  (r.trail? path).bind fun trail => trail.getLast?.map (·.2)

/-- The first node of the tree with a name. -/
def find? (r : Registry) (name : String) : Option Node := Node.findIn? name r.roots

/-- Every node with its path, each before the nodes below it. -/
def paths (r : Registry) : List (String × Node) := Node.pathsIn "" r.roots

/-- The first node of a trail that compiles, and the places of the nodes
behind it. -/
def owner? : List (Nat × Node) → Option (Node × List Nat)
  | [] => none
  | (_, n) :: rest =>
    if n.kind.isCompilable then some (n, rest.map (·.1)) else owner? rest

/-- The workflow that a selection compiles and the children to go on with. -/
def resolve (r : Registry) (s : Selection) : Except Error (Workflow × List Nat) :=
  match r.trail? s.path with
  | none => .error (.notFound "command" s.path)
  | some trail =>
    match trail.getLast? with
    | none => .error (.notFound "command" s.path)
    | some (_, target) =>
      if target.kind.isCompilable then
        match owner? trail with
        | none => .error (.internal s!"no pipeline on path `{s.path}`")
        | some (n, path) => .ok (n.toWorkflow, path ++ s.child)
      else .error (.validation (.notCompilable s.path target.kind.name))

/-- The plan of a selection, with places from `base` on. -/
def plan (r : Registry) (s : Selection) (base : Nat) : Except Error (List Planned) := do
  let (w, path) ← r.resolve s
  r.catalogs.plan w path base

/-- A pipeline with that of one more selection behind it. -/
def extend (r : Registry) (configs : StepConfigs) (p : Pipeline) (s : Selection) :
    Except Error Pipeline := do
  let (w, path) ← r.resolve s
  let next ← r.catalogs.compileAt w path configs p.size
  p.append next

/-- The pipeline of several selections, in their order. -/
def compileAll (r : Registry) (selections : List Selection) (configs : StepConfigs) :
    Except Error Pipeline := do
  let p ← selections.foldlM (r.extend configs) (.empty "")
  if p.isEmpty then .error (.validation .nothingToCompile) else .ok p

/-- The pipeline of one selection. -/
def compile (r : Registry) (s : Selection) (configs : StepConfigs) : Except Error Pipeline :=
  r.compileAll [s] configs

end Registry

end MediaPipeline
