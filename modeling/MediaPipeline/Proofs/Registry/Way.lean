import MediaPipeline.Proofs.Plan.Continuations
import MediaPipeline.Proofs.Plan.Stack
import MediaPipeline.Registry.Build
/-!
# Registry/Way — how deep the check of references goes

The check of references keeps one way of names, for the workflows that steps
refer to and for the children alike (`checkReferences_eq`). It follows
references through a look-up, so it is not the tree that makes it end. As for
planning, it is run here again on a bounded stack of names, which now has to
hold names of children too: those of the workflow that it starts from and those
of the workflows in the catalog, with everything below them (`reachable`). With
room for these the stack is never full (`checkEnteredWithin_eq`).

`traversals_end` puts together what ends, on any catalog and from any workflow.
-/


namespace MediaPipeline

namespace Workflow

variable {w d v : Workflow}

/-- A workflow and everything below it. -/
def descendants (w : Workflow) : List Workflow := w.childPaths.filterMap w.descendant?

theorem mem_descendants : d ∈ w.descendants ↔ ∃ path, w.descendant? path = some d := by
  unfold descendants
  rw [List.mem_filterMap]
  constructor
  · rintro ⟨path, -, h⟩
    exact ⟨path, h⟩
  · rintro ⟨path, h⟩
    exact ⟨path, mem_childPaths.mpr (by rw [h]; rfl), h⟩

theorem self_mem_descendants (w : Workflow) : w ∈ w.descendants := mem_descendants.mpr ⟨[], rfl⟩

/-- A path to a child of a descendant goes on by one index. -/
theorem exists_descendant?_child {path : List Nat} (hd : w.descendant? path = some d)
    (hv : v ∈ d.child) : ∃ i, w.descendant? (path ++ [i]) = some v := by
  obtain ⟨i, hi, rfl⟩ := List.getElem_of_mem hv
  refine ⟨i, ?_⟩
  rw [descendant?_append hd, descendant?_cons ⟨i, hi⟩]
  rfl

theorem mem_descendants_child (hd : d ∈ w.descendants) (hv : v ∈ d.child) :
    v ∈ w.descendants := by
  obtain ⟨path, hpath⟩ := mem_descendants.mp hd
  obtain ⟨i, hi⟩ := exists_descendant?_child hpath hv
  exact mem_descendants.mpr ⟨path ++ [i], hi⟩

end Workflow

namespace Registry

open Bounded

variable {c : Catalogs} {way : List String} {w v : Workflow} {steps : List Step}

/-! ## The check as a walk -/

/-- The check of a workflow that the way comes to. It must not be one that the
way has come by. -/
def checkEntered (c : Catalogs) (way : List String) (w : Workflow) : Except Error Unit :=
  if w.name ∈ way then fault (.selfReference w.name way)
  else checkReferences c (way ++ [w.name]) w

/-- The check of one step of a workflow. -/
def checkStep (c : Catalogs) (way : List String) (workflow : String) : Step → Except Error Unit
  | .feature key =>
    match c.features.get? key with
    | none => fault (.unknownFeature workflow key)
    | some _ => .ok ()
  | .workflow name =>
    match c.workflows.get? name with
    | none => fault (.unknownWorkflow workflow name)
    | some w => checkEntered c way w

theorem checkSteps_eq {workflow : String} :
    checkSteps c way workflow steps = steps.forM (checkStep c way workflow) := by
  induction steps with
  | nil => rw [checkSteps]; rfl
  | cons step rest ih =>
    change _ = (checkStep c way workflow step >>= fun _ => rest.forM (checkStep c way workflow))
    rw [← ih]
    cases step with
    | feature key =>
      rw [checkSteps, checkStep]
      cases c.features.get? key <;> rfl
    | workflow name =>
      rw [checkSteps, checkStep]
      split
      · rename_i hget
        rw [hget]
        rfl
      · rename_i u hget
        rw [hget]
        dsimp only [checkEntered]
        split <;> rfl

theorem checkChildren_eq {child : List Workflow} :
    checkChildren c way child = child.forM (checkEntered c way) := by
  induction child with
  | nil => rw [checkChildren]; rfl
  | cons v rest ih =>
    change _ = (checkEntered c way v >>= fun _ => rest.forM (checkEntered c way))
    rw [← ih, checkChildren, checkEntered]
    split <;> rfl

/-- **The check of a workflow** goes through its steps and then through its
children, on the same way. -/
theorem checkReferences_eq :
    checkReferences c way w =
      (w.steps.forM (checkStep c way w.name) >>= fun _ => w.child.forM (checkEntered c way)) := by
  cases w with
  | mk name description steps child => rw [checkReferences, checkSteps_eq, checkChildren_eq]

/-! ## The check on a bounded stack -/

variable {limit : Nat}

/-- The check of a workflow, whose name is put on the stack first. -/
def checkEnteredWithin (c : Catalogs) (s : Stack limit) (w : Workflow) : Bounded Unit :=
  if hname : w.name ∈ s.names then done (fault (.selfReference w.name s.names))
  else
    s.entering w.name hname fun s' _hroom => do
      w.steps.forM fun
        | .feature key => done (checkStep c s'.names w.name (.feature key))
        | .workflow name =>
          match c.workflows.get? name with
          | none => done (fault (.unknownWorkflow w.name name))
          | some v => checkEnteredWithin c s' v
      w.child.forM fun v => checkEnteredWithin c s' v
termination_by s.room
decreasing_by
  · exact _hroom
  · exact _hroom

/-- The workflows that a check can come to: those in the catalog, one that it
starts from, and everything below them. -/
def reachable (c : Catalogs) (w : Workflow) : List Workflow :=
  (w :: c.workflows.workflows).flatMap (·.descendants)

theorem self_mem_reachable (c : Catalogs) (w : Workflow) : w ∈ reachable c w :=
  List.mem_flatMap.mpr ⟨w, List.mem_cons_self, w.self_mem_descendants⟩

theorem mem_reachable_of_get? {name : String} (h : c.workflows.get? name = some v) :
    v ∈ reachable c w :=
  List.mem_flatMap.mpr ⟨v, List.mem_cons_of_mem w (WorkflowCatalog.mem_of_get? h),
    v.self_mem_descendants⟩

theorem mem_reachable_child {d : Workflow} (hd : d ∈ reachable c w) (hv : v ∈ d.child) :
    v ∈ reachable c w := by
  obtain ⟨u, hu, hd⟩ := List.mem_flatMap.mp hd
  exact List.mem_flatMap.mpr ⟨u, hu, Workflow.mem_descendants_child hd hv⟩

/-- **The check never finds its stack full.** The names on it are those of
workflows that it can come to. The induction is on the room that is left. -/
theorem checkEnteredWithin_eq {root : Workflow} {s : Stack (reachable c root).length}
    (hsub : s.names ⊆ (reachable c root).map (·.name)) (hw : w ∈ reachable c root) :
    checkEnteredWithin c s w = done (checkEntered c s.names w) := by
  induction hn : s.room using Nat.strong_induction_on generalizing s w with
  | _ n ih =>
    subst hn
    rw [checkEnteredWithin, checkEntered]
    by_cases hname : w.name ∈ s.names
    · rw [dif_pos hname, if_pos hname]
    · obtain ⟨s', hroom, hnames, hsub', hnext⟩ := Stack.exists_entering hname hsub
        (List.mem_map_of_mem hw) (List.length_map _).le
      rw [dif_neg hname, if_neg hname, hnext, checkReferences_eq, ← hnames,
        forM_done (g := checkStep c s'.names w.name)]
      · -- a child is not looked up, but it is below a workflow that the check came to
        refine done_bind fun _ => forM_done fun v hv => ?_
        exact ih _ hroom hsub' (mem_reachable_child hw hv) rfl
      · rintro (key | name) -
        · rfl
        · dsimp only [checkStep]
          cases hget : c.workflows.get? name with
          | none => rfl
          | some v => exact ih _ hroom hsub' (mem_reachable_of_get? hget) rfl

/-- **Every traversal ends,** on any catalog and from any workflow. A plan, a
check and the searches for what a step gives and takes are the same on stacks
of different names with room for one more than there are workflows in the
catalog: none of them is ever full. Where references lead into a cycle, there
is no plan. The check of references is the same on a stack of different names
with room for those of the workflows that it can come to. -/
theorem traversals_end (c : Catalogs) (w : Workflow) :
    (∀ path base, c.planWithin (c.workflows.workflows.length + 1) w path base =
      done (c.plan w path base)) ∧
    c.checkWithin (c.workflows.workflows.length + 1) w = done (c.check w) ∧
    (∀ step, c.outputTypeWithin (c.workflows.workflows.length + 1) step =
        done (c.outputType step) ∧
      c.inputIntakeWithin (c.workflows.workflows.length + 1) step = done (c.inputIntake step)) ∧
    (c.Circular w → ∀ path base, ∃ e, c.plan w path base = .error e) ∧
    checkEnteredWithin c (.empty (reachable c w).length) w =
      done (checkReferences c [w.name] w) := by
  refine ⟨c.planWithin_eq w, c.checkWithin_eq w, fun step => ?_, c.exists_error_of_circular, ?_⟩
  · exact ⟨c.outputTypeWithin_eq step, c.inputIntakeWithin_eq step⟩
  · exact checkEnteredWithin_eq (List.nil_subset _) (self_mem_reachable c w)

end Registry

end MediaPipeline
