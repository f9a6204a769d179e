import MediaPipeline.Plan
import Mathlib.Data.List.Basic
/-!
# Plan/Flattening — what steps come down to

`Flattens` is the flattening of steps on its own terms: a feature stands for
its entry, a reference for the flattened steps of the workflow it names. It
says nothing of where the reference stands, so on catalogs with a cycle some
steps flatten to nothing at all.

`Expands` is the flattening as an expansion meets it: with the names on the
way, none of which is met again, and with no empty workflow below. Every
expansion is a flattening (`Expands.flattens`) and a flattening is unique
(`Flattens.unique`), so what is shown of one holds of the other.

`FlattensAlong` puts the flattened steps of a workflow before those of the
descendants that a path of child indices selects.
-/


namespace MediaPipeline

namespace Catalogs

variable {c : Catalogs} {way : List String} {steps rest : List Step} {step : Step}
variable {leaves here later : List Entry}

/-- Steps and the features that they come down to, in order. -/
inductive Flattens (c : Catalogs) : List Step → List Entry → Prop
  | nil : Flattens c [] []
  | feature {key : String} {e : Entry} {rest : List Step} {later : List Entry}
      (hget : c.features.get? key = some e) (hrest : Flattens c rest later) :
      Flattens c (.feature key :: rest) (e :: later)
  | workflow {name : String} {w : Workflow} {rest : List Step} {here later : List Entry}
      (hget : c.workflows.get? name = some w) (hsteps : Flattens c w.steps here)
      (hrest : Flattens c rest later) : Flattens c (.workflow name :: rest) (here ++ later)

/-- Steps and the features that they come down to, in order, where `way` holds
the names of the workflows that the steps are in. -/
inductive Expands (c : Catalogs) : List String → List Step → List Entry → Prop
  | nil {way : List String} : Expands c way [] []
  | feature {way : List String} {key : String} {e : Entry} {rest : List Step}
      {later : List Entry} (hget : c.features.get? key = some e)
      (hrest : Expands c way rest later) : Expands c way (.feature key :: rest) (e :: later)
  | workflow {way : List String} {name : String} {w : Workflow} {rest : List Step}
      {here later : List Entry} (hget : c.workflows.get? name = some w) (hway : w.name ∉ way)
      (hne : w.steps ≠ []) (hsteps : Expands c (way ++ [w.name]) w.steps here)
      (hrest : Expands c way rest later) : Expands c way (.workflow name :: rest) (here ++ later)

/-- **A flattening is unique**, on any catalogs. -/
theorem Flattens.unique {leaves' : List Entry} (h : c.Flattens steps leaves)
    (h' : c.Flattens steps leaves') : leaves = leaves' := by
  induction h generalizing leaves' with
  | nil => cases h'; rfl
  | feature hget _ ih =>
    cases h' with
    | feature hget' hrest' =>
      rw [hget] at hget'
      rw [Option.some.inj hget', ih hrest']
  | workflow hget _ _ ihsteps ih =>
    cases h' with
    | workflow hget' hsteps' hrest' =>
      rw [hget] at hget'
      rw [← Option.some.inj hget'] at hsteps'
      rw [ihsteps hsteps', ih hrest']

/-- A workflow and the features that it comes down to, followed by those of
the descendants on a path of child indices. -/
inductive FlattensAlong (c : Catalogs) : Workflow → List Nat → List Entry → Prop
  | stop {w : Workflow} {leaves : List Entry} (hsteps : c.Flattens w.steps leaves) :
      FlattensAlong c w [] leaves
  | go {w v : Workflow} {n : Nat} {path : List Nat} {own more : List Entry}
      (hsteps : c.Flattens w.steps own) (hchild : w.child[n]? = some v)
      (hmore : FlattensAlong c v path more) : FlattensAlong c w (n :: path) (own ++ more)

/-- **So is the flattening along a path.** -/
theorem FlattensAlong.unique {w : Workflow} {path : List Nat} {leaves' : List Entry}
    (h : c.FlattensAlong w path leaves) (h' : c.FlattensAlong w path leaves') :
    leaves = leaves' := by
  induction h generalizing leaves' with
  | stop hsteps =>
    cases h' with
    | stop hsteps' => exact hsteps.unique hsteps'
  | go hsteps hchild _ ih =>
    cases h' with
    | go hsteps' hchild' hmore' =>
      rw [hchild] at hchild'
      obtain rfl := Option.some.inj hchild'
      rw [hsteps.unique hsteps', ih hmore']

/-- Steps come down to features of the catalog. -/
theorem Flattens.subset (h : c.Flattens steps leaves) : leaves ⊆ c.features.entries := by
  induction h with
  | nil => exact List.nil_subset _
  | feature hget _ ih => exact List.cons_subset.mpr ⟨List.mem_of_find?_eq_some hget, ih⟩
  | workflow _ _ _ ihsteps ih => exact List.append_subset.mpr ⟨ihsteps, ih⟩

theorem FlattensAlong.subset {w : Workflow} {path : List Nat} (h : c.FlattensAlong w path leaves) :
    leaves ⊆ c.features.entries := by
  induction h with
  | stop hsteps => exact hsteps.subset
  | go hsteps _ _ ih => exact List.append_subset.mpr ⟨hsteps.subset, ih⟩

namespace Expands

/-- An expansion is the flattening. -/
theorem flattens (h : c.Expands way steps leaves) : c.Flattens steps leaves := by
  induction h with
  | nil => exact .nil
  | feature hget _ ih => exact .feature hget ih
  | workflow hget _ _ _ _ ihsteps ih => exact .workflow hget ihsteps ih

/-! ## One step and the steps behind it -/

theorem cons (h : c.Expands way [step] here) (hrest : c.Expands way rest later) :
    c.Expands way (step :: rest) (here ++ later) := by
  cases h with
  | feature hget h => cases h; exact .feature hget hrest
  | workflow hget hway hne hsteps h =>
    cases h
    rw [List.append_nil]
    exact .workflow hget hway hne hsteps hrest

theorem cons_inv (h : c.Expands way (step :: rest) leaves) :
    ∃ here later, c.Expands way [step] here ∧ c.Expands way rest later ∧
      leaves = here ++ later := by
  cases h with
  | feature hget hrest => exact ⟨[_], _, .feature hget .nil, hrest, rfl⟩
  | workflow hget hway hne hsteps hrest =>
    refine ⟨_, _, ?_, hrest, rfl⟩
    have hone := Expands.workflow hget hway hne hsteps Expands.nil
    rwa [List.append_nil] at hone

/-- Steps expand where each of them does. -/
theorem exists_of_forall (h : ∀ step ∈ steps, ∃ here, c.Expands way [step] here) :
    ∃ leaves, c.Expands way steps leaves := by
  induction steps with
  | nil => exact ⟨[], .nil⟩
  | cons step rest ih =>
    obtain ⟨here, hhere⟩ := h step List.mem_cons_self
    obtain ⟨later, hlater⟩ := ih fun s hs => h s (List.mem_cons_of_mem step hs)
    exact ⟨here ++ later, hhere.cons hlater⟩

/-- And each of them does where they do. -/
theorem of_mem (h : c.Expands way steps leaves) (hstep : step ∈ steps) :
    ∃ here, c.Expands way [step] here := by
  induction steps generalizing leaves with
  | nil => exact absurd hstep List.not_mem_nil
  | cons first rest ih =>
    obtain ⟨here, later, hhere, hlater, -⟩ := h.cons_inv
    rcases List.mem_cons.mp hstep with rfl | hstep
    · exact ⟨here, hhere⟩
    · exact ih hlater hstep

/-- The workflow that a step refers to expands with its name on the way. -/
theorem of_workflow {name : String} (h : c.Expands way [.workflow name] leaves) :
    ∃ w, c.workflows.get? name = some w ∧ w.name ∉ way ∧ w.steps ≠ [] ∧
      c.Expands (way ++ [w.name]) w.steps leaves := by
  cases h with
  | workflow hget hway hne hsteps hrest =>
    cases hrest
    rw [List.append_nil]
    exact ⟨_, hget, hway, hne, hsteps⟩

/-! ## The ends of an expansion -/

/-- No step comes down to nothing, since no workflow below is empty. -/
theorem ne_nil (h : c.Expands way steps leaves) (hne : steps ≠ []) : leaves ≠ [] := by
  induction h with
  | nil => exact absurd rfl hne
  | feature => exact List.cons_ne_nil _ _
  | workflow _ _ hsteps _ _ ihsteps _ =>
    exact fun heq => ihsteps hsteps (List.append_eq_nil_iff.mp heq).1

/-- **An end of an expansion is that end of the step that stands there.** -/
theorem at_end {e : End} (h : c.Expands way steps leaves) (hend : e.of? steps = some step) :
    ∃ here, c.Expands way [step] here ∧ e.of? leaves = e.of? here := by
  induction steps generalizing leaves with
  | nil => cases e <;> cases hend
  | cons first rest ih =>
    obtain ⟨here, later, hhere, hlater, rfl⟩ := h.cons_inv
    have hne : here ≠ [] := hhere.ne_nil (List.cons_ne_nil _ _)
    cases e with
    | first =>
      cases hend
      exact ⟨here, hhere, List.head?_append_of_ne_nil here hne⟩
    | last =>
      cases hrest : rest with
      | nil =>
        subst hrest
        cases hend
        cases hlater
        exact ⟨here, hhere, by rw [List.append_nil]⟩
      | cons second more =>
        have hlne : later ≠ [] := hlater.ne_nil (by rw [hrest]; exact List.cons_ne_nil _ _)
        have hend' : End.last.of? rest = some step := by
          rw [← hend, hrest]
          simp [End.of?, List.getLast?_cons_cons]
        obtain ⟨x, hx, heq⟩ := ih hlater hend'
        refine ⟨x, hx, ?_⟩
        rw [← heq]
        exact List.getLast?_append_of_ne_nil here hlne

end Expands

end Catalogs

end MediaPipeline
