import MediaPipeline.Proofs.Pipeline
import MediaPipeline.Proofs.Plan.Layout
import MediaPipeline.Registry.Build
/-!
# Registry/References — what planning makes of checked references

Building the tree of commands follows the references of every workflow
through its steps and its children, with all the names that lie on the way.
Planning follows references again, and starts afresh at every child and at
both ends of every pair, so the names on its way are always among those of
the check. What the check lets through therefore never fails by a reference
afterwards: not where an end is searched (`edge_spares`), not where steps are
expanded (`expand_spares`), and not along a path (`plan_spares`).
-/


namespace MediaPipeline

open Traversal

/-- The failures of a reference that leads nowhere, or back to where it comes
from. -/
def Error.BlamesReference : Error → Prop
  | .notFound entity _ => entity = "feature" ∨ entity = "workflow"
  | .registry (.unknownFeature _ _) => True
  | .registry (.unknownWorkflow _ _) => True
  | .registry (.selfReference _ _) => True
  | .registry (.cycle _) => True
  | _ => False

/-! ## Computations that do not fail by a reference -/

/-- A computation that does not fail by a reference. -/
def Spares {α : Type} (x : Except Error α) : Prop := ∀ e, x = .error e → ¬ e.BlamesReference

namespace Spares

variable {α β : Type} {x : Except Error α}

theorem ok (a : α) : Spares (.ok a : Except Error α) := FailsBy.ok a

theorem error {e : Error} (h : ¬ e.BlamesReference) : Spares (.error e : Except Error α) :=
  FailsBy.error h

theorem bind {f : α → Except Error β} (hx : Spares x) (hf : ∀ a, x = .ok a → Spares (f a)) :
    Spares (x >>= f) :=
  FailsBy.bind hx hf

theorem map {f : α → β} (hx : Spares x) : Spares (x.map f) := FailsBy.map hx

theorem forM {f : α → Except Error Unit} {l : List α} (h : ∀ a ∈ l, Spares (f a)) :
    Spares (l.forM f) :=
  FailsBy.forM h

end Spares

namespace Registry

variable {c : Catalogs} {way : List String} {w v : Workflow} {steps : List Step}

/-! ## What the check says -/

/-- A step leads somewhere, by a way that does not come back to any of the
given names. -/
def Clears (c : Catalogs) (way : List String) : Step → Prop
  | .feature key => (c.features.get? key).isSome
  | .workflow name =>
    ∃ v, c.workflows.get? name = some v ∧ v.name ∉ way ∧
      checkReferences c (way ++ [v.name]) v = .ok ()

theorem checkSteps_eq_ok {workflow : String} :
    checkSteps c way workflow steps = .ok () ↔ ∀ step ∈ steps, Clears c way step := by
  induction steps with
  | nil => simp [checkSteps]
  | cons step rest ih =>
    rw [List.forall_mem_cons, ← ih]
    cases step with
    | feature key =>
      rw [checkSteps]
      cases hget : c.features.get? key <;> simp [Clears, hget, fault]
    | workflow name =>
      rw [checkSteps]
      split
      · rename_i hnone
        simp [Clears, hnone, fault]
      · rename_i u hu
        split
        · rename_i hmem
          simp [Clears, hu, hmem, fault]
        · rename_i hmem
          rw [then_eq_ok]
          simp [Clears, hu, hmem]

theorem checkChildren_eq_ok {child : List Workflow} :
    checkChildren c way child = .ok () ↔
      ∀ v ∈ child, v.name ∉ way ∧ checkReferences c (way ++ [v.name]) v = .ok () := by
  induction child with
  | nil => simp [checkChildren]
  | cons v rest ih =>
    rw [List.forall_mem_cons, ← ih, checkChildren]
    split
    · rename_i hmem
      simp [hmem, fault]
    · rename_i hmem
      rw [then_eq_ok]
      simp [hmem]

/-- **The check of a workflow** lets it through where every step leads
somewhere and every child has a name of its own and is let through, with its
name on the way. -/
theorem checkReferences_eq_ok :
    checkReferences c way w = .ok () ↔ (∀ step ∈ w.steps, Clears c way step) ∧
      ∀ v ∈ w.child, v.name ∉ way ∧ checkReferences c (way ++ [v.name]) v = .ok () := by
  cases w with
  | mk name description steps child =>
    rw [checkReferences, then_eq_ok, checkSteps_eq_ok, checkChildren_eq_ok]

end Registry

namespace Catalogs

open Registry

variable {c : Catalogs} {way way' : List String} {w v : Workflow} {path : List Nat}
variable {steps : List Step} {step producer consumer : Step} {workflow : String} {i : Nat}

/-! ## Ends and pairs -/

theorem noSteps_spares {α : Type} (name : String) : Spares (noSteps name : Except Error α) :=
  Spares.error id

theorem feature_spares {key : String} (h : Clears c way (.feature key)) :
    Spares (c.feature key) := by
  obtain ⟨e, hget⟩ := Option.isSome_iff_exists.mp h
  rw [feature_eq_ok.mpr hget]
  exact Spares.ok e

/-- **The search for an end is not stopped by a reference.** Its way holds only
names that the check met as well. -/
theorem edge_spares {e : End} (h : Clears c way step) (hsub : way' ⊆ way) :
    Spares (c.edge e way' step) := by
  induction way', step using edge.induct c e generalizing way with
  | case1 way' key =>
    rw [edge]
    exact feature_spares h
  | case2 way' name hmem =>
    obtain ⟨v, hget, hway, -⟩ := h
    rw [WorkflowCatalog.name_of_get? hget] at hway
    exact absurd (hsub hmem) hway
  | case3 way' name hmem hnone =>
    obtain ⟨v, hget, -, -⟩ := h
    rw [hnone] at hget
    cases hget
  | case4 way' name hmem w hget hend =>
    rw [edge, dif_neg hmem]
    split
    · rename_i hnone
      rw [hget] at hnone
      cases hnone
    · rename_i u hu
      rw [hget] at hu
      obtain rfl := Option.some.inj hu
      rw [hend]
      exact noSteps_spares name
  | case5 way' name hmem w hget step hend ih =>
    obtain ⟨v, hget', -, hbelow⟩ := h
    have hsame := Option.some.inj (hget.symm.trans hget')
    subst hsame
    have hstep : step ∈ w.steps := by
      cases e with
      | first => exact List.mem_of_mem_head? hend
      | last => exact List.mem_of_getLast? hend
    rw [edge_workflow hmem hget hend]
    refine ih ((checkReferences_eq_ok.mp hbelow).1 step hstep) ?_
    rw [WorkflowCatalog.name_of_get? hget]
    exact List.append_subset.mpr
      ⟨List.subset_append_of_subset_left _ hsub, List.subset_append_right _ _⟩

theorem outputType_spares (h : Clears c way step) : Spares (c.outputType step) :=
  (edge_spares h (List.nil_subset way)).map

theorem inputIntake_spares (h : Clears c way step) : Spares (c.inputIntake step) :=
  (edge_spares h (List.nil_subset way)).map

theorem checkPair_spares (hp : Clears c way producer) (hc : Clears c way' consumer) :
    Spares (c.checkPair workflow i producer consumer) := by
  refine (outputType_spares hp).bind fun produced _ => ?_
  refine (inputIntake_spares hc).bind fun intake _ => ?_
  cases intake.check produced 1 with
  | ok _ => exact Spares.ok _
  | error why => exact Spares.error id

/-! ## Steps and paths -/

/-- **Steps that were checked expand without a failure of a reference.** The
induction is that of the expansion; a reference puts the same name on both
ways. -/
theorem expand_spares {before : Option Step} (h : ∀ step ∈ steps, Clears c way step)
    (hbefore : ∀ p ∈ before, Clears c way p) (hsub : way' ⊆ way) :
    Spares (c.expand way' workflow before i steps) := by
  induction way', workflow, before, i, steps using expand.induct c generalizing way with
  | case1 way' workflow before i =>
    rw [expand]
    exact Spares.ok _
  | case2 way' workflow before i step rest ihrest ihbelow =>
    have hstep := h step List.mem_cons_self
    have hrest : ∀ s ∈ rest, Clears c way s := fun s hs => h s (List.mem_cons_of_mem step hs)
    have hcheck : Spares (c.checkBefore workflow before i step) := by
      cases before with
      | none => exact Spares.ok _
      | some p => exact checkPair_spares (hbefore p rfl) hstep
    have hlater : Spares (c.expand way' workflow (some step) (i + 1) rest) := by
      refine ihrest hrest (fun p hp => ?_) hsub
      exact Option.some.inj hp ▸ hstep
    have hhere : Spares (c.expand way' workflow none 0 [step]) := by
      cases step with
      | feature key =>
        rw [expand_feature]
        exact (feature_spares hstep).map
      | workflow name =>
        obtain ⟨v, hget, hway, hbelow⟩ := hstep
        have hway' : v.name ∉ way' := fun hmem => hway (hsub hmem)
        rw [expand_workflow hget, if_neg hway']
        by_cases hnil : v.steps = []
        · rw [if_pos hnil]
          exact noSteps_spares v.name
        · rw [if_neg hnil]
          have hsteps := (checkReferences_eq_ok.mp hbelow).1
          refine ihbelow name v hget hway' hsteps
            (fun p hp => absurd hp (Option.not_mem_none p)) ?_
          exact List.append_subset.mpr
            ⟨List.subset_append_of_subset_left _ hsub, List.subset_append_right _ _⟩
    rw [expand_cons]
    exact hcheck.bind fun _ _ => hhere.bind fun _ _ => hlater.bind fun _ _ => Spares.ok _

theorem leaves_spares (h : checkReferences c way w = .ok ()) (hway : w.name ∈ way) :
    Spares (c.leaves w) := by
  have hsteps := (checkReferences_eq_ok.mp h).1
  unfold leaves
  split
  · exact noSteps_spares w.name
  · exact expand_spares hsteps (fun p hp => absurd hp (Option.not_mem_none p))
      fun name hname => List.mem_singleton.mp hname ▸ hway

theorem checkContinuation_spares (hw : ∀ step ∈ w.steps, Clears c way step)
    (hv : ∀ step ∈ v.steps, Clears c way' step) : Spares (c.checkContinuation w v) := by
  unfold checkContinuation
  split
  · rename_i producer consumer hlast hfirst
    exact checkPair_spares (hw producer (List.mem_of_getLast? hlast))
      (hv consumer (List.mem_of_mem_head? hfirst))
  · exact Spares.ok _

/-- A child that does not exist is no reference: it is asked for by its
place. -/
theorem continuation_spares (h : checkReferences c way w = .ok ()) :
    Spares (c.continuation w path) := by
  induction path generalizing way w with
  | nil => exact Spares.ok _
  | cons n path ih =>
    rw [continuation]
    obtain ⟨hsteps, hchildren⟩ := checkReferences_eq_ok.mp h
    cases hchild : w.child[n]? with
    | none => exact Spares.error (by simp [Error.BlamesReference])
    | some v =>
      obtain ⟨-, hv⟩ := hchildren v (List.mem_of_getElem? hchild)
      have hvsteps := (checkReferences_eq_ok.mp hv).1
      have hvleaves := leaves_spares hv (List.mem_append_right way List.mem_cons_self)
      refine (checkContinuation_spares hsteps hvsteps).bind fun _ _ => ?_
      exact hvleaves.bind fun _ _ => (ih hv).bind fun _ _ => Spares.ok _

/-- **A workflow that was checked has no plan that fails by a reference,** along
any path and at any place. -/
theorem plan_spares (h : checkReferences c [w.name] w = .ok ()) (path : List Nat) (base : Nat) :
    Spares (c.plan w path base) :=
  (leaves_spares h List.mem_cons_self).bind fun _ _ =>
    (continuation_spares h).bind fun _ _ => Spares.ok _

theorem check_spares (h : checkReferences c [w.name] w = .ok ()) : Spares (c.check w) :=
  Spares.forM fun path _ => (plan_spares h path 0).map

/-- A configuration that is missing is no reference. -/
theorem resolve_spares (configs : StepConfigs) (index : Nat) (entry : Entry) :
    Spares (configs.resolve index entry) := by
  unfold StepConfigs.resolve
  split
  · exact Spares.ok _
  · exact Spares.error id

/-- A compilation that fails by a reference all the same has that failure from
a feature, which gave it as its answer to its configuration. -/
theorem compileAt_eq_error {configs : StepConfigs} {base : Nat} {e : Error}
    (h : checkReferences c [w.name] w = .ok ())
    (he : c.compileAt w path configs base = .error e) :
    ¬ e.BlamesReference ∨ ∃ planned q given, c.plan w path base = .ok planned ∧ q ∈ planned ∧
      configs.resolve q.index q.entry = .ok given ∧ q.entry.feature.compile given = .error e := by
  rcases fails_of_compileAt he with hplan | ⟨planned, hplan, q, hq, hcompile⟩
  · exact .inl (plan_spares h path base _ hplan)
  · rcases Planned.compile_eq_error.mp hcompile with hmissing | ⟨given, hgiven, hanswer⟩
    · exact .inl (resolve_spares configs q.index q.entry _ hmissing)
    · exact .inr ⟨planned, q, given, hplan, hq, hgiven, hanswer⟩

/-- Over features that never answer with a failure of a reference, a workflow
that was checked compiles without one. -/
theorem compileAt_spares
    (hfeatures : ∀ e ∈ c.features.entries, ∀ given, Spares (e.feature.compile given))
    (h : checkReferences c [w.name] w = .ok ()) (path : List Nat) (configs : StepConfigs)
    (base : Nat) : Spares (c.compileAt w path configs base) := by
  intro e he
  rcases compileAt_eq_error h he with hspared | ⟨planned, q, given, hplan, hq, -, hanswer⟩
  · exact hspared
  · exact hfeatures q.entry (entry_mem_of_plan hplan hq) given e hanswer

end Catalogs

end MediaPipeline
