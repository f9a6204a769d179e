/-!
# Workflow — steps and the ways to go on

A workflow is a chain of steps. A step is a feature, by its key in the
catalog, or another workflow, by its name. Children are alternative workflows
to go on with afterwards; a path of child indices leads from a workflow to
one of its descendants.
-/


namespace MediaPipeline

/-- One part of a workflow. -/
inductive Step where
  | feature (key : String)
  | workflow (name : String)
  deriving DecidableEq, Repr, Inhabited

namespace Step

/-- The key or name that a step refers to. -/
def target : Step → String
  | .feature key => key
  | .workflow name => name

/-- A step as it is shown. -/
def display : Step → String
  | .feature key => "feature " ++ key
  | .workflow name => "workflow " ++ name

end Step

/-- A chain of steps and the workflows to go on with. -/
structure Workflow where
  name : String
  description : String := ""
  steps : List Step
  child : List Workflow := []
  deriving Repr, Inhabited

namespace Workflow

/-- **Induction over a workflow and those below it.** -/
@[elab_as_elim]
theorem below_induction {P : Workflow → Prop}
    (h : ∀ w : Workflow, (∀ v ∈ w.child, P v) → P w) (w : Workflow) : P w :=
  h w fun v _ => below_induction h v
termination_by sizeOf w
decreasing_by
  rename_i hv
  have hlt := List.sizeOf_lt_of_mem hv
  cases w
  simp only [Workflow.mk.sizeOf_spec]
  simp only at hlt
  omega

/-- The descendant that a path of child indices leads to. -/
def descendant? (w : Workflow) : List Nat → Option Workflow
  | [] => some w
  | i :: path => (w.child[i]?).bind fun c => c.descendant? path

mutual

/-- The paths to all descendants, each before the paths that go on from
it. -/
def childPaths : Workflow → List (List Nat)
  | ⟨_, _, _, child⟩ => [] :: pathsFrom 0 child

/-- The paths into children, the first of which has the given index. -/
def pathsFrom (i : Nat) : List Workflow → List (List Nat)
  | [] => []
  | w :: ws => (childPaths w).map (i :: ·) ++ pathsFrom (i + 1) ws

end

end Workflow

end MediaPipeline
