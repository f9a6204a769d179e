import MediaPipeline.Plan
import MediaPipeline.Registry.Node
import MediaPipeline.Settings
/-!
# Registry/Build — the tree of commands from the catalogs

The tree has the features and the workflows as categories, and beside them
the command for verbatim arguments, if its feature is in the catalog, and the
action that clears the session. Catalogs with a fault make no tree: keys and
names that are not unique, references that lead nowhere or back to where they
come from, workflows without steps, and features that can neither be
configured nor run without being configured. What the settings hide or
disable is left out of the tree only after it was checked.
-/


namespace MediaPipeline

/-- The tree of commands and the catalogs that it was built from. -/
structure Registry where
  catalogs : Catalogs
  roots : List Registry.Node

namespace Registry

/-- The name of the category of features. -/
def featuresName : String := "Features"

/-- The name of the category of workflows. -/
def workflowsName : String := "Workflows"

/-- The name of the command for verbatim arguments. -/
def customRunName : String := "Custom Run"

/-- The key of the feature for verbatim arguments. -/
def customRunKey : String := "CUSTOM_RUN"

/-- The name of the action that clears the session. -/
def clearName : String := "Clear"

/-- A fault of the catalogs. -/
def fault {α : Type} (f : RegistryFault) : Except Error α := .error (.registry f)

/-! ## Names that are unique -/

/-- The first text that occurs again after texts that occurred before. -/
def firstRepeat? (seen : List String) : List String → Option String
  | [] => none
  | s :: rest => if s ∈ seen then some s else firstRepeat? (s :: seen) rest

/-- Checks that no two entries of the feature catalog have one key. -/
def checkKeys (keys : List String) : Except Error Unit :=
  match firstRepeat? [] keys with
  | some key => fault (.duplicateKey key)
  | none => .ok ()

/-- Checks that no two commands of one scope have one name. -/
def checkNames (scope : String) (names : List String) : Except Error Unit :=
  match firstRepeat? [] names with
  | some name => fault (.duplicateCommand name scope)
  | none => .ok ()

/-- A row of nodes with one more, which has a name of its own. -/
def pushNode (scope : String) (nodes : List Node) (n : Node) : Except Error (List Node) :=
  if n.name ∈ nodes.map (·.name) then fault (.duplicateCommand n.name scope)
  else .ok (nodes ++ [n])

/-! ## References that lead somewhere else -/

mutual

/-- Checks the references of a workflow and its children; `way` holds the
names on the way to it and its own. -/
def checkReferences (c : Catalogs) (way : List String) : Workflow → Except Error Unit
  | ⟨name, _, steps, child⟩ => do
    checkSteps c way name steps
    checkChildren c way child
termination_by w => (c.workflows.unvisited way, sizeOf w)

/-- Checks the references of steps of a workflow. -/
def checkSteps (c : Catalogs) (way : List String) (workflow : String) :
    List Step → Except Error Unit
  | [] => .ok ()
  | .feature key :: rest =>
    match c.features.get? key with
    | none => fault (.unknownFeature workflow key)
    | some _ => checkSteps c way workflow rest
  | .workflow name :: rest =>
    match _hget : c.workflows.get? name with
    | none => fault (.unknownWorkflow workflow name)
    | some w =>
      if _hway : w.name ∈ way then fault (.selfReference w.name way)
      else do
        checkReferences c (way ++ [w.name]) w
        checkSteps c way workflow rest
termination_by steps => (c.workflows.unvisited way, sizeOf steps)
decreasing_by
  · exact Prod.Lex.right _ (by simp only [List.cons.sizeOf_spec]; omega)
  · exact Prod.Lex.left _ _
      (WorkflowCatalog.unvisited_append_lt (WorkflowCatalog.mem_of_get? _hget) _hway)
  · exact Prod.Lex.right _ (by simp only [List.cons.sizeOf_spec]; omega)

/-- Checks the references of the children of a workflow. -/
def checkChildren (c : Catalogs) (way : List String) : List Workflow → Except Error Unit
  | [] => .ok ()
  | w :: rest =>
    if w.name ∈ way then fault (.selfReference w.name way)
    else do
      checkReferences c (way ++ [w.name]) w
      checkChildren c way rest
termination_by ws => (c.workflows.unvisited way, sizeOf ws)
decreasing_by
  · rcases Nat.lt_or_eq_of_le (c.workflows.unvisited_append_le way [w.name]) with hlt | heq
    · exact Prod.Lex.left _ _ hlt
    · rw [heq]
      exact Prod.Lex.right _ (by simp only [List.cons.sizeOf_spec]; omega)
  · exact Prod.Lex.right _ (by simp only [List.cons.sizeOf_spec]; omega)

end

/-! ## Nodes -/

/-- The node of a feature: one with a form is configured in it, any other
runs with its defaults. -/
def featureNode (e : Entry) : Except Error Node :=
  let node (kind : Kind) : Node :=
    ⟨e.name, e.description, kind, e.ui, [], [.feature e.key]⟩
  if e.ui.isSome then .ok (node .interactive)
  else if e.defaults.isSome then .ok (node .direct)
  else fault (.noDefaults e.key)

mutual

/-- The node of a workflow, with its children below it. -/
def workflowNode : Workflow → Except Error Node
  | ⟨name, description, steps, child⟩ =>
    if steps = [] then fault (.emptyWorkflow name)
    else do
      let nodes ← childNodes name [] child
      .ok ⟨name, description, .workflow, none, nodes, steps⟩

/-- The nodes of the children of a workflow, behind those that are
finished. -/
def childNodes (scope : String) (done : List Node) : List Workflow → Except Error (List Node)
  | [] => .ok done
  | w :: rest => do
    let n ← workflowNode w
    let nodes ← pushNode scope done n
    childNodes scope nodes rest

end

/-- Whether a feature is left out of the tree. -/
def isHidden (settings : Settings.Catalog) (e : Entry) : Bool :=
  e.hidden || settings.hiddenFeatures.contains e.key

/-- The nodes of features with one more, unless it is left out. -/
def addFeature (settings : Settings.Catalog) (nodes : List Node) (e : Entry) :
    Except Error (List Node) :=
  if isHidden settings e then .ok nodes
  else do
    let n ← featureNode e
    pushNode featuresName nodes n

/-- The nodes of workflows with one more, unless it is left out; its
references are checked in either case. -/
def addWorkflow (c : Catalogs) (settings : Settings.Catalog) (nodes : List Node)
    (w : Workflow) : Except Error (List Node) := do
  checkReferences c [w.name] w
  if settings.disabledWorkflows.contains w.name then .ok nodes
  else do
    let n ← workflowNode w
    pushNode workflowsName nodes n

/-- The command for verbatim arguments, if its feature is in the catalog. -/
def customRunNodes (c : Catalogs) : Except Error (List Node) :=
  match c.features.get? customRunKey with
  | none => .ok []
  | some e => (featureNode e).map fun n => [{ n with name := customRunName }]

/-- The category of features. -/
def featuresNode (child : List Node) : Node :=
  { name := featuresName, description := "Single transformations", kind := .category,
    child := child }

/-- The category of workflows. -/
def workflowsNode (child : List Node) : Node :=
  { name := workflowsName, description := "Multi-step pipelines", kind := .category,
    child := child }

/-- The action that clears the session. -/
def clearNode : Node :=
  { name := clearName, description := "Discard the current selection and progress",
    kind := .action }

/-! ## The tree -/

/-- The tree of commands over catalogs, without what the settings leave
out. -/
def build (c : Catalogs) (settings : Settings.Catalog) : Except Error Registry := do
  let entries := c.features.entries
  let workflows := c.workflows.workflows
  checkKeys (entries.map (·.key))
  checkNames featuresName (entries.map (·.name))
  checkNames workflowsName (workflows.map (·.name))
  let features ← entries.foldlM (addFeature settings) []
  let flows ← workflows.foldlM (addWorkflow c settings) []
  let custom ← customRunNodes c
  .ok ⟨c, [featuresNode features, workflowsNode flows] ++ custom ++ [clearNode]⟩

/-- The tree of commands over the catalogs of this library. -/
def builtin (settings : Settings.Catalog) : Except Error Registry :=
  build ⟨.builtin, .builtin⟩ settings

end Registry

end MediaPipeline
