import MediaPipeline.Proofs.Plan.Flattening
import Mathlib.Data.List.Chain
import Mathlib.Data.List.Nodup
import Mathlib.Logic.Relation
/-!
# Plan/Reference — workflows that refer to workflows

A workflow refers to another one where a step of it names it. `Sound` asks
three things of everything that references lead to from a workflow: no
workflow is empty, every key and name is in the catalogs, and no chain of
references meets a name twice.

`sound_iff_expands` ties this to the flattening: a workflow is sound exactly
where it is not empty and its steps expand with its own name on the way. One
direction follows the chains down the expansion; the other builds the
expansion by the workflows that are not on the way yet, of which every
reference leaves fewer.
-/


namespace MediaPipeline

namespace Workflow

/-- A path of child indices selects the workflow itself and every descendant
that it passes. -/
def Selects (w : Workflow) (path : List Nat) (v : Workflow) : Prop :=
  ∃ first, first <+: path ∧ w.descendant? first = some v

variable {w v : Workflow}

theorem selects_nil : w.Selects [] v ↔ w = v := by
  constructor
  · rintro ⟨first, hfirst, hv⟩
    obtain rfl := List.prefix_nil.mp hfirst
    exact Option.some.inj hv
  · rintro rfl
    exact ⟨[], List.prefix_rfl, rfl⟩

/-- Behind the workflow itself, a path selects what its rest selects from the
first child. -/
theorem selects_cons {n : Nat} {path : List Nat} :
    w.Selects (n :: path) v ↔ w = v ∨ ∃ u, w.child[n]? = some u ∧ u.Selects path v := by
  constructor
  · rintro ⟨first, hfirst, hv⟩
    cases first with
    | nil => exact .inl (Option.some.inj hv)
    | cons m first =>
      obtain ⟨rfl, hrest⟩ := List.cons_prefix_cons.mp hfirst
      obtain ⟨u, hu, hv⟩ := Option.bind_eq_some_iff.mp hv
      exact .inr ⟨u, hu, first, hrest, hv⟩
  · rintro (rfl | ⟨u, hu, first, hfirst, hv⟩)
    · exact ⟨[], List.nil_prefix, rfl⟩
    · exact ⟨n :: first, List.cons_prefix_cons.mpr ⟨rfl, hfirst⟩,
        Option.bind_eq_some_iff.mpr ⟨u, hu, hv⟩⟩

end Workflow

namespace Catalogs

variable {c : Catalogs} {way : List String} {w v : Workflow}

/-- A step of the one workflow refers to the other. -/
def Refers (c : Catalogs) (w v : Workflow) : Prop :=
  ∃ name, .workflow name ∈ w.steps ∧ c.workflows.get? name = some v

/-- The catalogs have what a step refers to. -/
def Has (c : Catalogs) : Step → Prop
  | .feature key => (c.features.get? key).isSome
  | .workflow name => (c.workflows.get? name).isSome

/-- Nothing that references lead to from a workflow is empty, unknown or met
twice on one chain. -/
structure Sound (c : Catalogs) (w : Workflow) : Prop where
  steps_ne_nil : ∀ v, Relation.ReflTransGen c.Refers w v → v.steps ≠ []
  has : ∀ v, Relation.ReflTransGen c.Refers w v → ∀ step ∈ v.steps, c.Has step
  acyclic : ∀ chain, (w :: chain).IsChain c.Refers → ((w :: chain).map (·.name)).Nodup

/-! ## From the expansion to the chains -/

/-- What a workflow refers to expands one name further on the way. -/
theorem Expands.of_refers {leaves : List Entry} (h : c.Expands way w.steps leaves)
    (href : c.Refers w v) :
    v.name ∉ way ∧ v.steps ≠ [] ∧ ∃ here, c.Expands (way ++ [v.name]) v.steps here := by
  obtain ⟨name, hstep, hget⟩ := href
  obtain ⟨here, hhere⟩ := h.of_mem hstep
  obtain ⟨u, hget', hway, hne, hsteps⟩ := hhere.of_workflow
  rw [hget] at hget'
  obtain rfl := Option.some.inj hget'
  exact ⟨hway, hne, here, hsteps⟩

/-- Whatever references lead to expands on some way. -/
theorem Expands.of_reaches {leaves : List Entry} (h : c.Expands way w.steps leaves)
    (hne : w.steps ≠ []) (hreach : Relation.ReflTransGen c.Refers w v) :
    v.steps ≠ [] ∧ ∃ way' here, c.Expands way' v.steps here := by
  induction hreach with
  | refl => exact ⟨hne, way, leaves, h⟩
  | tail _ href ih =>
    obtain ⟨-, way', here, hhere⟩ := ih
    obtain ⟨-, hne', here', hhere'⟩ := hhere.of_refers href
    exact ⟨hne', _, here', hhere'⟩

/-- The catalogs have what the steps of an expansion refer to. -/
theorem Expands.has {leaves : List Entry} {steps : List Step} {step : Step}
    (h : c.Expands way steps leaves) (hstep : step ∈ steps) : c.Has step := by
  obtain ⟨here, hhere⟩ := h.of_mem hstep
  cases step with
  | feature key =>
    cases hhere with
    | feature hget _ => exact Option.isSome_iff_exists.mpr ⟨_, hget⟩
  | workflow name =>
    obtain ⟨u, hget, -⟩ := hhere.of_workflow
    exact Option.isSome_iff_exists.mpr ⟨u, hget⟩

/-- **A chain meets no name twice**, and none that is on the way. -/
theorem Expands.nodup_of_chain {leaves : List Entry} {chain : List Workflow}
    (h : c.Expands way w.steps leaves) (hway : way.Nodup)
    (hchain : (w :: chain).IsChain c.Refers) : (way ++ chain.map (·.name)).Nodup := by
  induction chain generalizing way w leaves with
  | nil => simpa using hway
  | cons v chain ih =>
    obtain ⟨href, hrest⟩ := List.isChain_cons_cons.mp hchain
    obtain ⟨hname, -, here, hhere⟩ := h.of_refers href
    have hway' : (way ++ [v.name]).Nodup :=
      List.Nodup.append hway (List.pairwise_singleton _ _) (by simpa using hname)
    have hall := ih hhere hway' hrest
    rwa [List.append_assoc] at hall

/-! ## From the chains to the expansion -/

/-- **Where chains meet no name twice, the steps expand.** The induction is on
the workflows of the catalog that are not on the way. -/
theorem exists_expands (n : Nat) (hn : c.workflows.unvisited way < n)
    (hne : ∀ v, Relation.ReflTransGen c.Refers w v → v.steps ≠ [])
    (hhas : ∀ v, Relation.ReflTransGen c.Refers w v → ∀ step ∈ v.steps, c.Has step)
    (hway : ∀ chain, (w :: chain).IsChain c.Refers → (way ++ chain.map (·.name)).Nodup) :
    ∃ leaves, c.Expands way w.steps leaves := by
  induction n generalizing way w with
  | zero => omega
  | succ n ih =>
    refine Expands.exists_of_forall fun step hstep => ?_
    cases step with
    | feature key =>
      obtain ⟨e, hget⟩ := Option.isSome_iff_exists.mp (hhas w .refl _ hstep)
      exact ⟨[e], .feature hget .nil⟩
    | workflow name =>
      obtain ⟨u, hget⟩ := Option.isSome_iff_exists.mp (hhas w .refl _ hstep)
      have href : c.Refers w u := ⟨name, hstep, hget⟩
      have hname : u.name ∉ way := by
        have hnodup := hway [u] (List.isChain_cons_cons.mpr ⟨href, List.isChain_singleton u⟩)
        exact fun hmem => List.disjoint_of_nodup_append hnodup hmem (by simp)
      have hlt := WorkflowCatalog.unvisited_append_lt (WorkflowCatalog.mem_of_get? hget) hname
      -- a chain from the workflow that is named goes on from the one that names it
      have hbelow : ∃ leaves, c.Expands (way ++ [u.name]) u.steps leaves := by
        refine ih (by omega) (fun v hv => hne v (.head href hv))
          (fun v hv => hhas v (.head href hv)) fun chain hchain => ?_
        have hnodup := hway (u :: chain) (List.isChain_cons_cons.mpr ⟨href, hchain⟩)
        rwa [List.append_assoc]
      obtain ⟨leaves, hleaves⟩ := hbelow
      have hone := Expands.workflow hget hname (hne u (.single href)) hleaves Expands.nil
      rw [List.append_nil] at hone
      exact ⟨leaves, hone⟩

/-- **A workflow is sound where its steps expand.** -/
theorem sound_iff_expands :
    c.Sound w ↔ w.steps ≠ [] ∧ ∃ leaves, c.Expands [w.name] w.steps leaves := by
  constructor
  · intro h
    exact ⟨h.steps_ne_nil w .refl,
      exists_expands _ (Nat.lt_succ_self _) h.steps_ne_nil h.has h.acyclic⟩
  · rintro ⟨hne, leaves, hleaves⟩
    refine ⟨fun v hv => (hleaves.of_reaches hne hv).1, fun v hv step hstep => ?_,
      fun chain hchain => ?_⟩
    · obtain ⟨-, way', here, hhere⟩ := hleaves.of_reaches hne hv
      exact hhere.has hstep
    · exact hleaves.nodup_of_chain (List.nodup_cons.mpr ⟨List.not_mem_nil, List.nodup_nil⟩) hchain

/-- The flattened steps of a sound workflow are its expansion. -/
theorem Sound.expands {leaves : List Entry} (hw : c.Sound w) (h : c.Flattens w.steps leaves) :
    c.Expands [w.name] w.steps leaves := by
  obtain ⟨-, leaves', hleaves⟩ := sound_iff_expands.mp hw
  rwa [h.unique hleaves.flattens]

end Catalogs

end MediaPipeline
