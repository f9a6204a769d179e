import MediaPipeline.Proofs.Plan.Success
import Mathlib.Data.List.Perm.Subperm
/-!
# Plan/Stack — how deep planning goes

Planning follows references by name, and the names of the workflows that it is
in are all that keeps it from going round for ever. `Stack` holds such names:
they are pairwise different, and there are at most as many as the stack has
room for. On it the traversals are run again step by step, with a third outcome
beside success and failure: that a name is to be put on a stack that is full.

With room for one name more than the catalog has workflows this never happens,
so each traversal is the one that is run (`edgeWithin_eq`, `planWithin_eq`,
`checkWithin_eq`): whatever the catalog, every stack stays that low, every
stack has different names, and so the traversal ends. The reason is a count:
the names on a stack come from a list that is no longer than its room
(`Stack.exists_entering`). Where names are put on the stack before they are looked
up, one of them may be unknown, and no further name comes on top of it.

`exists_error_of_circular` is the other half: where references lead to a
workflow that they lead back to, there is no plan.
-/


namespace MediaPipeline

/-! ## Computations with bounded stacks -/

/-- A computation that succeeds, fails, or finds a stack full. -/
abbrev Bounded (α : Type) : Type := ExceptT Error Option α

namespace Bounded

variable {α β : Type}

/-- A computation that comes to its end. -/
def done (x : Except Error α) : Bounded α := ExceptT.mk (some x)

/-- A stack has no room for a name. -/
def full : Bounded α := ExceptT.mk none

/-- Two computations come to their end where both of them do. -/
theorem done_bind {x : Except Error α} {f : α → Bounded β} {g : α → Except Error β}
    (h : ∀ a, f a = done (g a)) : (done x >>= f) = done (x >>= g) := by
  cases x with
  | error e => rfl
  | ok a => exact h a

theorem done_map {x : Except Error α} {f : α → β} :
    (done x >>= fun a => done (.ok (f a))) = done (x.map f) := by
  cases x <;> rfl

/-- And so does a traversal. -/
theorem forM_done {f : α → Bounded Unit} {g : α → Except Error Unit} {l : List α}
    (h : ∀ a ∈ l, f a = done (g a)) : l.forM f = done (l.forM g) := by
  induction l with
  | nil => rfl
  | cons a l ih =>
    change (f a >>= fun _ => l.forM f) = done (g a >>= fun _ => l.forM g)
    rw [h a List.mem_cons_self]
    exact done_bind fun _ => ih fun a' ha' => h a' (List.mem_cons_of_mem a ha')

end Bounded

open Bounded

/-! ## Stacks of names -/

/-- The names of the workflows that a traversal is in. -/
structure Stack (limit : Nat) where
  names : List String
  nodup : names.Nodup
  length_le : names.length ≤ limit

namespace Stack

variable {limit : Nat} {s : Stack limit} {name : String}

/-- A traversal that is not in any workflow yet. -/
def empty (limit : Nat) : Stack limit := ⟨[], List.nodup_nil, Nat.zero_le limit⟩

/-- How many names there is room for. -/
def room (s : Stack limit) : Nat := limit - s.names.length

/-- A stack with a new name on top. -/
def push (s : Stack limit) (name : String) (hname : name ∉ s.names)
    (hroom : s.names.length < limit) : Stack limit where
  names := s.names ++ [name]
  nodup := List.Nodup.append s.nodup (List.pairwise_singleton _ _) (by simpa using hname)
  length_le := by
    rw [List.length_append, List.length_singleton]
    exact hroom

theorem room_push_lt {hname : name ∉ s.names} {hroom : s.names.length < limit} :
    (s.push name hname hroom).room < s.room := by
  simp only [room, push, List.length_append, List.length_singleton]
  omega

/-- What a traversal does in a workflow, with the name of the workflow on top of
the stack. -/
def entering {α : Type} (s : Stack limit) (name : String) (hname : name ∉ s.names)
    (next : ∀ s' : Stack limit, s'.room < s.room → Bounded α) : Bounded α :=
  if hroom : s.names.length < limit then next (s.push name hname hroom) room_push_lt else full

/-- **There is room for every name of a list that the stack can hold,** if its
names come from that list: they are different ones. -/
theorem exists_entering {all : List String} (hname : name ∉ s.names) (hsub : s.names ⊆ all)
    (hmem : name ∈ all) (hlimit : all.length ≤ limit) :
    ∃ s' : Stack limit, ∃ hroom : s'.room < s.room, s'.names = s.names ++ [name] ∧
      s'.names ⊆ all ∧ ∀ {α : Type} (next : ∀ s' : Stack limit, s'.room < s.room → Bounded α),
        s.entering name hname next = next s' hroom := by
  have hnodup : (name :: s.names).Nodup := List.nodup_cons.mpr ⟨hname, s.nodup⟩
  have hall : name :: s.names ⊆ all := List.cons_subset.mpr ⟨hmem, hsub⟩
  -- different names of the list are no more than it has
  have hlength := (List.subperm_of_subset hnodup hall).length_le
  have hroom : s.names.length < limit := by
    rw [List.length_cons] at hlength
    omega
  refine ⟨s.push name hname hroom, room_push_lt, rfl, ?_, fun next => dif_pos hroom⟩
  exact List.append_subset.mpr ⟨hsub, List.cons_subset.mpr ⟨hmem, List.nil_subset _⟩⟩

end Stack

namespace Catalogs

variable {limit : Nat}

/-! ## The traversals on a bounded stack -/

/-- The search for an end of a step. A name is put on the stack before it is
looked up. -/
def edgeWithin (c : Catalogs) (e : End) (s : Stack limit) : Step → Bounded Entry
  | .feature key => done (c.feature key)
  | .workflow name =>
    if hname : name ∈ s.names then done (cycle s.names name)
    else
      s.entering name hname fun s' _hroom =>
        match c.workflows.get? name with
        | none => done (unknownWorkflow name)
        | some w =>
          match e.of? w.steps with
          | none => done (noSteps name)
          | some step => c.edgeWithin e s' step
termination_by s.room
decreasing_by exact _hroom

/-- The type of what a step produces, searched on a stack of its own. -/
def outputTypeWithin (c : Catalogs) (limit : Nat) (step : Step) : Bounded MediaType := do
  let e ← c.edgeWithin .last (.empty limit) step
  done (.ok e.intake.primary)

/-- The inputs that a step takes, searched on a stack of its own. -/
def inputIntakeWithin (c : Catalogs) (limit : Nat) (step : Step) : Bounded Intake := do
  let e ← c.edgeWithin .first (.empty limit) step
  done (.ok e.intake)

/-- The check of a declared pair. -/
def checkPairWithin (c : Catalogs) (limit : Nat) (workflow : String) (i : Nat)
    (producer consumer : Step) : Bounded Unit := do
  let produced ← c.outputTypeWithin limit producer
  let intake ← c.inputIntakeWithin limit consumer
  match intake.check produced 1 with
  | .ok () => done (.ok ())
  | .error why =>
    done (.error (.incompatible workflow i (i + 1) (mismatchText producer consumer produced why)))

/-- The check of a step against the one before it. -/
def checkBeforeWithin (c : Catalogs) (limit : Nat) (workflow : String) (before : Option Step)
    (i : Nat) (step : Step) : Bounded Unit :=
  match before with
  | none => done (.ok ())
  | some producer => c.checkPairWithin limit workflow (i - 1) producer step

mutual

/-- The features of a workflow, whose name is put on the stack first. -/
def enterWithin (c : Catalogs) (s : Stack limit) (w : Workflow) : Bounded (List Entry) :=
  if hname : w.name ∈ s.names then done (cycle s.names w.name)
  else
    s.entering w.name hname fun s' _hroom =>
      if w.steps = [] then done (noSteps w.name)
      else c.stepsWithin s' w.name none 0 w.steps
termination_by (s.room, 0)
decreasing_by exact Prod.Lex.left _ _ _hroom

/-- The features of one step: the workflow that it refers to is looked up
before its name is put on the stack. -/
def stepWithin (c : Catalogs) (s : Stack limit) : Step → Bounded (List Entry)
  | .feature key => done ((c.feature key).map fun e => [e])
  | .workflow name =>
    match c.workflows.get? name with
    | none => done (unknownWorkflow name)
    | some w => c.enterWithin s w
termination_by (s.room, 1)
decreasing_by exact Prod.Lex.right _ Nat.zero_lt_one

/-- The features of a chain of steps of a workflow that is on the stack. -/
def stepsWithin (c : Catalogs) (s : Stack limit) (workflow : String) (before : Option Step)
    (i : Nat) : List Step → Bounded (List Entry)
  | [] => done (.ok [])
  | step :: rest => do
    c.checkBeforeWithin limit workflow before i step
    let here ← c.stepWithin s step
    let later ← c.stepsWithin s workflow (some step) (i + 1) rest
    done (.ok (here ++ later))
termination_by steps => (s.room, steps.length + 1)
decreasing_by
  · exact Prod.Lex.right _ (by simp only [List.length_cons]; omega)
  · exact Prod.Lex.right _ (by simp only [List.length_cons]; omega)

end

/-- The check of a child against its parent. -/
def checkContinuationWithin (c : Catalogs) (limit : Nat) (parent child : Workflow) :
    Bounded Unit :=
  match parent.steps.getLast?, child.steps.head? with
  | some producer, some consumer =>
    c.checkPairWithin limit parent.name (parent.steps.length - 1) producer consumer
  | _, _ => done (.ok ())

/-- The features of the descendants on a path. Each of them finds the stack
empty. -/
def continuationWithin (c : Catalogs) (limit : Nat) (parent : Workflow) :
    List Nat → Bounded (List Entry)
  | [] => done (.ok [])
  | n :: path =>
    match parent.child[n]? with
    | none => done (.error (.notFound "child workflow" s!"{parent.name} #{n}"))
    | some child => do
      c.checkContinuationWithin limit parent child
      let here ← c.enterWithin (.empty limit) child
      let later ← c.continuationWithin limit child path
      done (.ok (here ++ later))

/-- The plan of a workflow. -/
def planWithin (c : Catalogs) (limit : Nat) (w : Workflow) (path : List Nat) (base : Nat) :
    Bounded (List Planned) := do
  let own ← c.enterWithin (.empty limit) w
  let more ← c.continuationWithin limit w path
  done (.ok (numbered base (own ++ more)))

/-- The check of every way to go on. -/
def checkWithin (c : Catalogs) (limit : Nat) (w : Workflow) : Bounded Unit :=
  w.childPaths.forM fun path => do
    let _ ← c.planWithin limit w path 0
    done (.ok ())

/-! ## No stack is ever full -/

/-- One name more than the catalog has workflows. -/
def capacity (c : Catalogs) : Nat := c.workflows.workflows.length + 1

/-- The names that can come on the stack of a search or an expansion: one that
it starts from, and those of the catalog. -/
def namesFrom (c : Catalogs) (name : String) : List String :=
  name :: c.workflows.workflows.map (·.name)

variable {c : Catalogs} {s : Stack c.capacity} {w : Workflow} {path : List Nat} {name : String}

theorem length_namesFrom : (c.namesFrom name).length ≤ c.capacity := by
  simp [namesFrom, capacity]

theorem name_mem_of_get? (h : c.workflows.get? name = some w) :
    w.name ∈ c.workflows.workflows.map (·.name) :=
  List.mem_map_of_mem (WorkflowCatalog.mem_of_get? h)

/-- **A search never finds its stack full.** Only names of the catalog stand
below the one that is put on it. The induction is on the room that is left. -/
theorem edgeWithin_eq {e : End} {step : Step}
    (hsub : s.names ⊆ c.workflows.workflows.map (·.name)) :
    c.edgeWithin e s step = done (c.edge e s.names step) := by
  induction hn : s.room using Nat.strong_induction_on generalizing s step with
  | _ n ih =>
    subst hn
    cases step with
    | feature key => rw [edgeWithin, edge]
    | workflow name =>
      by_cases hname : name ∈ s.names
      · rw [edgeWithin, dif_pos hname, edge_cycle hname]
      · obtain ⟨s', hroom, hnames, -, hnext⟩ := Stack.exists_entering hname
          (List.subset_cons_of_subset name hsub) List.mem_cons_self length_namesFrom
        rw [edgeWithin, dif_neg hname, hnext]
        cases hget : c.workflows.get? name with
        | none => rw [edge_unknown hname hget]
        | some w =>
          dsimp only
          cases hend : e.of? w.steps with
          | none => rw [edge_noSteps hname hget hend]
          | some step =>
            -- the name was put on the stack before it was known to be in the catalog
            have hsub' : s'.names ⊆ c.workflows.workflows.map (·.name) := by
              rw [hnames, ← WorkflowCatalog.name_of_get? hget]
              exact List.append_subset.mpr
                ⟨hsub, List.cons_subset.mpr ⟨name_mem_of_get? hget, List.nil_subset _⟩⟩
            rw [edge_workflow hname hget hend, ← hnames]
            exact ih _ hroom hsub' rfl

theorem outputTypeWithin_eq (step : Step) :
    c.outputTypeWithin c.capacity step = done (c.outputType step) := by
  rw [outputTypeWithin, edgeWithin_eq (List.nil_subset _), done_map]
  rfl

theorem inputIntakeWithin_eq (step : Step) :
    c.inputIntakeWithin c.capacity step = done (c.inputIntake step) := by
  rw [inputIntakeWithin, edgeWithin_eq (List.nil_subset _), done_map]
  rfl

theorem checkPairWithin_eq {workflow : String} {i : Nat} {producer consumer : Step} :
    c.checkPairWithin c.capacity workflow i producer consumer =
      done (c.checkPair workflow i producer consumer) := by
  rw [checkPairWithin, checkPair, outputTypeWithin_eq, inputIntakeWithin_eq]
  refine done_bind fun produced => done_bind fun intake => ?_
  cases intake.check produced 1 <;> rfl

theorem checkBeforeWithin_eq {workflow : String} {before : Option Step} {i : Nat} {step : Step} :
    c.checkBeforeWithin c.capacity workflow before i step =
      done (c.checkBefore workflow before i step) := by
  cases before with
  | none => rfl
  | some producer => exact checkPairWithin_eq

/-- What an expansion comes to at a workflow, with the names on the way. -/
def entered (c : Catalogs) (way : List String) (w : Workflow) : Except Error (List Entry) :=
  if w.name ∈ way then cycle way w.name
  else if w.steps = [] then noSteps w.name
  else c.expand (way ++ [w.name]) w.name none 0 w.steps

theorem entered_nil (w : Workflow) : c.entered [] w = c.leaves w := by
  simp [entered, leaves]

/-- A step comes to its end where the workflow does that it refers to. -/
theorem stepWithin_eq (workflow : String) {step : Step}
    (hnext : ∀ name u, c.workflows.get? name = some u →
      c.enterWithin s u = done (c.entered s.names u)) :
    c.stepWithin s step = done (c.expand s.names workflow none 0 [step]) := by
  cases step with
  | feature key => rw [stepWithin, expand_feature]
  | workflow name =>
    rw [stepWithin]
    cases hget : c.workflows.get? name with
    | none => rw [expand_unknown hget]
    | some u =>
      rw [expand_workflow hget]
      exact hnext name u hget

/-- So do the steps of a chain, one after the other. -/
theorem stepsWithin_eq {workflow : String} {before : Option Step} {i : Nat} {steps : List Step}
    (hnext : ∀ name u, c.workflows.get? name = some u →
      c.enterWithin s u = done (c.entered s.names u)) :
    c.stepsWithin s workflow before i steps = done (c.expand s.names workflow before i steps) := by
  induction steps generalizing before i with
  | nil => rw [stepsWithin, expand]
  | cons step rest ih =>
    rw [expand_cons, stepsWithin, checkBeforeWithin_eq, stepWithin_eq workflow hnext, ih]
    exact done_bind fun _ => done_bind fun _ => done_bind fun _ => rfl

/-- **An expansion never finds its stack full.** The names on it are the one
that it starts from and names of the catalog. The induction is on the room that
is left. -/
theorem enterWithin_eq (hsub : s.names ⊆ c.namesFrom name) (hw : w.name ∈ c.namesFrom name) :
    c.enterWithin s w = done (c.entered s.names w) := by
  induction hn : s.room using Nat.strong_induction_on generalizing s w with
  | _ n ih =>
    subst hn
    rw [enterWithin, entered]
    by_cases hname : w.name ∈ s.names
    · rw [dif_pos hname, if_pos hname]
    · obtain ⟨s', hroom, hnames, hsub', hnext⟩ :=
        Stack.exists_entering hname hsub hw length_namesFrom
      rw [dif_neg hname, if_neg hname, hnext, ← hnames]
      by_cases hnil : w.steps = []
      · rw [if_pos hnil, if_pos hnil]
      · rw [if_neg hnil, if_neg hnil]
        refine stepsWithin_eq fun called u hget => ?_
        exact ih _ hroom hsub' (List.mem_cons_of_mem name (name_mem_of_get? hget)) rfl

/-- A workflow finds the stack empty, whether or not it is in the catalog. -/
theorem enterWithin_empty (w : Workflow) :
    c.enterWithin (.empty c.capacity) w = done (c.leaves w) := by
  rw [← entered_nil]
  exact enterWithin_eq (List.nil_subset (c.namesFrom w.name)) List.mem_cons_self

theorem checkContinuationWithin_eq {parent child : Workflow} :
    c.checkContinuationWithin c.capacity parent child =
      done (c.checkContinuation parent child) := by
  unfold checkContinuationWithin checkContinuation
  cases parent.steps.getLast? with
  | none => rfl
  | some producer =>
    cases child.steps.head? with
    | none => rfl
    | some consumer => exact checkPairWithin_eq

theorem continuationWithin_eq :
    c.continuationWithin c.capacity w path = done (c.continuation w path) := by
  induction path generalizing w with
  | nil => rfl
  | cons n path ih =>
    rw [continuationWithin, continuation]
    cases w.child[n]? with
    | none => rfl
    | some child =>
      dsimp only
      rw [checkContinuationWithin_eq, enterWithin_empty, ih]
      exact done_bind fun _ => done_bind fun _ => done_bind fun _ => rfl

/-- **Planning never finds a stack full.** -/
theorem planWithin_eq (w : Workflow) (path : List Nat) (base : Nat) :
    c.planWithin c.capacity w path base = done (c.plan w path base) := by
  rw [planWithin, plan, enterWithin_empty, continuationWithin_eq]
  exact done_bind fun _ => done_bind fun _ => rfl

theorem checkWithin_eq (w : Workflow) : c.checkWithin c.capacity w = done (c.check w) := by
  refine forM_done fun path _ => ?_
  rw [planWithin_eq]
  exact done_map

/-! ## Cycles -/

/-- What references lead to from a sound workflow is sound. -/
theorem Sound.of_refers {v : Workflow} (hw : c.Sound w) (href : c.Refers w v) : c.Sound v where
  steps_ne_nil u hu := hw.steps_ne_nil u (.head href hu)
  has u hu := hw.has u (.head href hu)
  acyclic chain hchain := by
    have hnodup := hw.acyclic (v :: chain) (List.isChain_cons_cons.mpr ⟨href, hchain⟩)
    rw [List.map_cons, List.nodup_cons] at hnodup
    exact hnodup.2

theorem Sound.of_reaches {v : Workflow} (hw : c.Sound w)
    (hreach : Relation.ReflTransGen c.Refers w v) : c.Sound v := by
  induction hreach with
  | refl => exact hw
  | tail _ href ih => exact ih.of_refers href

/-- A sound workflow is on no cycle: the chain around it would meet its name
again. -/
theorem Sound.not_cycle (hw : c.Sound w) : ¬ Relation.TransGen c.Refers w w := by
  intro hcycle
  obtain ⟨u, href, hback⟩ := Relation.TransGen.head'_iff.mp hcycle
  obtain ⟨chain, hchain, hlast⟩ := List.exists_isChain_cons_of_relationReflTransGen hback
  have hnodup := hw.acyclic (u :: chain) (List.isChain_cons_cons.mpr ⟨href, hchain⟩)
  rw [List.map_cons, List.nodup_cons] at hnodup
  refine hnodup.1 (List.mem_map_of_mem ?_)
  rw [← hlast]
  exact List.getLast_mem _

/-- References lead from a workflow to one that they lead back to. -/
def Circular (c : Catalogs) (w : Workflow) : Prop :=
  ∃ v, Relation.ReflTransGen c.Refers w v ∧ Relation.TransGen c.Refers v v

/-- **Where references lead into a cycle there is no plan,** neither of the
workflow alone nor along any path. -/
theorem exists_error_of_circular (h : c.Circular w) (path : List Nat) (base : Nat) :
    ∃ e, c.plan w path base = .error e := by
  cases hplan : c.plan w path base with
  | error e => exact ⟨e, rfl⟩
  | ok planned =>
    obtain ⟨-, hsound, -⟩ := (plan_isOk_iff c w path base).mp ⟨planned, hplan⟩
    obtain ⟨v, hreach, hcycle⟩ := h
    have hw : c.Sound w := hsound w ⟨[], List.nil_prefix, rfl⟩
    exact absurd hcycle (hw.of_reaches hreach).not_cycle

end Catalogs

end MediaPipeline
