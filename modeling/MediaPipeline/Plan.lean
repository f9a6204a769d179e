import MediaPipeline.Feature.Catalog
import MediaPipeline.Workflow.Catalog
/-!
# Plan — workflows flattened into features

A plan lists the features that a workflow comes down to, in order, with the
workflows it refers to put in their place and the chosen children behind it.
Planning checks every declared pair of neighbours: what the last feature of
one step produces must be taken, as a single input, by the first feature of
the next. A workflow may not refer to itself, directly or through others; the
names on the way are kept, and since every one of them is a different name of
the catalog, planning ends.

The features are listed first and get their places at the end, the places at
which they come to stand one behind the other; a plan that gives each feature the
next place as it comes is the same plan (`Catalogs.plan_eq_planOnto`). The check
of all ways to go on lists their paths first as well, and is the same as a walk
with one path that grows and shrinks (`Catalogs.checkFrom_eq`). Places are natural
numbers. Where they are counted in 64 bits they agree as long as the first place
and the number of features stay below `2 ^ 64` together.
-/


namespace MediaPipeline

/-- The features and workflows that steps refer to. -/
structure Catalogs where
  features : FeatureCatalog
  workflows : WorkflowCatalog

/-- A feature at its place in the plan. -/
structure Planned where
  index : Nat
  entry : Entry

/-- The two ends of a step. -/
inductive End where
  | first
  | last
  deriving DecidableEq, Repr

/-- What stands at one end of a list. -/
def End.of? {α : Type} (e : End) (l : List α) : Option α :=
  match e with
  | .first => l.head?
  | .last => l.getLast?

namespace Catalogs

/-! ## References -/

/-- The feature that a key refers to. -/
def feature (c : Catalogs) (key : String) : Except Error Entry :=
  match c.features.get? key with
  | some e => .ok e
  | none => .error (.notFound "feature" key)

/-- A reference to a workflow whose name is already on the way. -/
def cycle {α : Type} (way : List String) (name : String) : Except Error α :=
  .error (.registry (.cycle (way ++ [name])))

/-- A reference to a name that no workflow has. -/
def unknownWorkflow {α : Type} (name : String) : Except Error α :=
  .error (.notFound "workflow" name)

/-- A workflow without steps. -/
def noSteps {α : Type} (name : String) : Except Error α :=
  .error (.registry (.emptyWorkflow name))

/-! ## The ends of a step -/

/-- The feature at one end of a step, reached through the workflows on the
way. -/
def edge (c : Catalogs) (e : End) (way : List String) : Step → Except Error Entry
  | .feature key => c.feature key
  | .workflow name =>
    if _hway : name ∈ way then cycle way name
    else
      match _hget : c.workflows.get? name with
      | none => unknownWorkflow name
      | some w =>
        match e.of? w.steps with
        | none => noSteps name
        | some step => c.edge e (way ++ [name]) step
termination_by c.workflows.unvisited way
decreasing_by
  have hname := WorkflowCatalog.name_of_get? _hget
  subst hname
  exact WorkflowCatalog.unvisited_append_lt (WorkflowCatalog.mem_of_get? _hget) _hway

/-- The type of what a step produces. -/
def outputType (c : Catalogs) (step : Step) : Except Error MediaType :=
  (c.edge .last [] step).map fun e => e.intake.primary

/-- The inputs that a step takes. -/
def inputIntake (c : Catalogs) (step : Step) : Except Error Intake :=
  (c.edge .first [] step).map fun e => e.intake

/-- Why a step does not take what the step before it produces. -/
def mismatchText (producer consumer : Step) (produced : MediaType) (why : Refusal) : String :=
  s!"{producer.display} produces {produced.name}, but {consumer.display}: {why.message}"

/-- Checks that a step takes what the step before it in a workflow, which has
the index `i`, produces. -/
def checkPair (c : Catalogs) (workflow : String) (i : Nat) (producer consumer : Step) :
    Except Error Unit := do
  let produced ← c.outputType producer
  let intake ← c.inputIntake consumer
  match intake.check produced 1 with
  | .ok () => .ok ()
  | .error why =>
    .error (.incompatible workflow i (i + 1) (mismatchText producer consumer produced why))

/-! ## Flattening -/

/-- Checks that a step takes what the step before it produces, if there is
one; the step itself has the index `i`. -/
def checkBefore (c : Catalogs) (workflow : String) (before : Option Step) (i : Nat)
    (step : Step) : Except Error Unit :=
  match before with
  | none => .ok ()
  | some producer => c.checkPair workflow (i - 1) producer step

/-- The features of a chain of steps of a workflow. The step before the
chain, if there is one, has the index before `i`; `way` holds the names of
the workflows that the chain is in. -/
def expand (c : Catalogs) (way : List String) (workflow : String) (before : Option Step)
    (i : Nat) : List Step → Except Error (List Entry)
  | [] => .ok []
  | step :: rest => do
    c.checkBefore workflow before i step
    let here ←
      match step with
      | .feature key => (c.feature key).map fun e => [e]
      | .workflow name =>
        match _hget : c.workflows.get? name with
        | none => unknownWorkflow name
        | some w =>
          if _hway : w.name ∈ way then cycle way w.name
          else if w.steps = [] then noSteps w.name
          else c.expand (way ++ [w.name]) w.name none 0 w.steps
    let later ← c.expand way workflow (some step) (i + 1) rest
    .ok (here ++ later)
termination_by steps => (c.workflows.unvisited way, steps.length)
decreasing_by
  · exact Prod.Lex.right _ (Nat.lt_succ_self _)
  · exact Prod.Lex.left _ _
      (WorkflowCatalog.unvisited_append_lt (WorkflowCatalog.mem_of_get? _hget) _hway)

/-- The features of a workflow, without its children. -/
def leaves (c : Catalogs) (w : Workflow) : Except Error (List Entry) :=
  if w.steps = [] then noSteps w.name else c.expand [w.name] w.name none 0 w.steps

/-- Checks that a child takes what its parent produces. -/
def checkContinuation (c : Catalogs) (parent child : Workflow) : Except Error Unit :=
  match parent.steps.getLast?, child.steps.head? with
  | some producer, some consumer =>
    c.checkPair parent.name (parent.steps.length - 1) producer consumer
  | _, _ => .ok ()

/-- The features of the descendants on a path of child indices, one after the
other. -/
def continuation (c : Catalogs) (parent : Workflow) : List Nat → Except Error (List Entry)
  | [] => .ok []
  | n :: path =>
    match parent.child[n]? with
    | none => .error (.notFound "child workflow" s!"{parent.name} #{n}")
    | some child => do
      c.checkContinuation parent child
      let here ← c.leaves child
      let later ← c.continuation child path
      .ok (here ++ later)

/-- Features at consecutive places, the first of which is `base`. -/
def numbered (base : Nat) (entries : List Entry) : List Planned :=
  entries.mapIdx fun i e => ⟨base + i, e⟩

/-- The plan of a workflow with the descendants on a path behind it; its
first place is `base`. -/
def plan (c : Catalogs) (w : Workflow) (path : List Nat) (base : Nat) :
    Except Error (List Planned) := do
  let own ← c.leaves w
  let more ← c.continuation w path
  .ok (numbered base (own ++ more))

/-- Checks that every way to go on from a workflow has a plan. -/
def check (c : Catalogs) (w : Workflow) : Except Error Unit :=
  w.childPaths.forM fun path => (c.plan w path 0).map fun _ => ()

end Catalogs

end MediaPipeline
