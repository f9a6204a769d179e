import MediaPipeline.Proofs.Neighbours
import MediaPipeline.Proofs.Plan.Reference
import MediaPipeline.Proofs.Traversal
/-!
# Plan/Expansion — when steps expand

An expansion checks each declared pair of steps by searching the ends of both
from scratch; it never looks at the flattened sequence. `edge_of_expands`
says that the search finds the end of what the step comes down to, so a check
of two steps (`checkPair_eq_ok`) is a check of the two neighbours that they
put side by side. `expand_eq_ok` is the induction: steps expand exactly where
the relation `Expands` says, each feature feeds the one behind it, and the
first one is fed by whatever stands before the steps.
-/


namespace MediaPipeline

open Traversal

namespace Catalogs

variable {c : Catalogs} {way way' : List String} {w : Workflow} {steps rest : List Step}
variable {step : Step} {leaves here later : List Entry}

/-! ## The ends of a step -/

theorem feature_eq_ok {key : String} {e : Entry} :
    c.feature key = .ok e ↔ c.features.get? key = some e := by
  unfold feature
  cases c.features.get? key <;> simp

/-- The search goes on at the end of the workflow that is named. -/
theorem edge_workflow {e : End} {name : String} (hway : name ∉ way)
    (hget : c.workflows.get? name = some w) (hstep : e.of? w.steps = some step) :
    c.edge e way (.workflow name) = c.edge e (way ++ [name]) step := by
  rw [edge, dif_neg hway]
  split
  · rename_i hnone
    rw [hget] at hnone
    cases hnone
  · rename_i u hu
    rw [hget] at hu
    obtain rfl := Option.some.inj hu
    rw [hstep]

/-- A search that comes back to a name fails there. -/
theorem edge_cycle {e : End} {name : String} (hway : name ∈ way) :
    c.edge e way (.workflow name) = cycle way name := by
  rw [edge, dif_pos hway]

/-- So does one that comes to a name that no workflow has. -/
theorem edge_unknown {e : End} {name : String} (hway : name ∉ way)
    (hget : c.workflows.get? name = none) :
    c.edge e way (.workflow name) = unknownWorkflow name := by
  rw [edge, dif_neg hway]
  split
  · rfl
  · rename_i u hu
    rw [hget] at hu
    cases hu

/-- And one that comes to a workflow without steps. -/
theorem edge_noSteps {e : End} {name : String} (hway : name ∉ way)
    (hget : c.workflows.get? name = some w) (hnone : e.of? w.steps = none) :
    c.edge e way (.workflow name) = noSteps name := by
  rw [edge, dif_neg hway]
  split
  · rename_i hu
    rw [hget] at hu
    cases hu
  · rename_i u hu
    rw [hget] at hu
    obtain rfl := Option.some.inj hu
    rw [hnone]

/-- **The search finds the end of the expansion.** Its own way starts afresh
at every pair, so it holds no more names than the way of the expansion. -/
theorem edge_of_expands {e : End} (h : c.Expands way [step] here) (hsub : way' ⊆ way) :
    ∃ a, c.edge e way' step = .ok a ∧ e.of? here = some a := by
  induction way', step using edge.induct c e generalizing way here with
  | case1 way' key =>
    cases h with
    | feature hget hrest =>
      cases hrest
      refine ⟨_, by rw [edge]; exact feature_eq_ok.mpr hget, ?_⟩
      cases e <;> rfl
  | case2 way' name hmem =>
    obtain ⟨u, hget, hway, -⟩ := h.of_workflow
    rw [WorkflowCatalog.name_of_get? hget] at hway
    exact absurd (hsub hmem) hway
  | case3 way' name hmem hnone =>
    obtain ⟨u, hget, -⟩ := h.of_workflow
    rw [hnone] at hget
    cases hget
  | case4 way' name hmem w hget hend =>
    obtain ⟨u, hget', -, hne, -⟩ := h.of_workflow
    rw [hget] at hget'
    obtain rfl := Option.some.inj hget'
    exact absurd hend (by cases e <;> simp [End.of?, hne])
  | case5 way' name hmem w hget step hend ih =>
    obtain ⟨u, hget', hway, hne, hsteps⟩ := h.of_workflow
    rw [hget] at hget'
    obtain rfl := Option.some.inj hget'
    obtain ⟨x, hx, heq⟩ := hsteps.at_end hend
    rw [edge_workflow hmem hget hend, heq]
    refine ih hx ?_
    rw [WorkflowCatalog.name_of_get? hget]
    exact List.append_subset.mpr
      ⟨List.subset_append_of_subset_left _ hsub, List.subset_append_right _ _⟩

/-- **A check of two steps is a check of the neighbours that they put side by
side.** -/
theorem checkPair_eq_ok {workflow : String} {i : Nat} {producer consumer : Step}
    (hp : c.Expands way [producer] here) (hc : c.Expands way' [consumer] later) :
    c.checkPair workflow i producer consumer = .ok () ↔ Joins Entry.Feeds here later := by
  obtain ⟨a, hedge, ha⟩ := edge_of_expands (e := .last) hp (List.nil_subset _)
  obtain ⟨b, hedge', hb⟩ := edge_of_expands (e := .first) hc (List.nil_subset _)
  have hjoins : Joins Entry.Feeds here later ↔ a.Feeds b := by
    simp only [End.of?] at ha hb
    simp [Joins, ha, hb]
  rw [hjoins, checkPair, outputType, inputIntake, hedge, hedge']
  unfold Entry.Feeds Intake.Feeds
  simp only [Except.map, bind, Except.bind]
  cases b.intake.check a.intake.primary 1 <;> simp

/-! ## One step -/

/-- An expansion is that of its first step, behind the check of what stands
before it, and that of the steps behind. -/
theorem expand_cons {workflow : String} {before : Option Step} {i : Nat} :
    c.expand way workflow before i (step :: rest) = (do
      c.checkBefore workflow before i step
      let here ← c.expand way workflow none 0 [step]
      let later ← c.expand way workflow (some step) (i + 1) rest
      .ok (here ++ later)) := by
  rw [expand, expand, expand]
  cases c.checkBefore workflow before i step with
  | error e => rfl
  | ok _ =>
    cases step with
    | feature key =>
      simp only [checkBefore]
      cases c.feature key with
      | error e => rfl
      | ok e => simp [bind, Except.bind, Except.map]
    | workflow name =>
      simp only [checkBefore]
      split
      · rfl
      · split
        · rfl
        · split
          · rfl
          · rename_i w hget hway hne
            cases c.expand (way ++ [w.name]) w.name none 0 w.steps with
            | error e => rfl
            | ok below => simp [bind, Except.bind]

/-- A feature expands to its entry. -/
theorem expand_feature {workflow key : String} :
    c.expand way workflow none 0 [.feature key] = (c.feature key).map fun e => [e] := by
  have hempty : c.expand way workflow (some (.feature key)) 1 [] = .ok [] := by rw [expand]
  rw [expand]
  simp only [checkBefore, hempty]
  cases c.feature key <;> rfl

/-- A reference expands to the steps of the workflow that it names, with the
name on the way. -/
theorem expand_workflow {workflow name : String} (hget : c.workflows.get? name = some w) :
    c.expand way workflow none 0 [.workflow name] =
      if w.name ∈ way then cycle way w.name
      else if w.steps = [] then noSteps w.name
      else c.expand (way ++ [w.name]) w.name none 0 w.steps := by
  have hempty : c.expand way workflow (some (.workflow name)) 1 [] = .ok [] := by rw [expand]
  rw [expand]
  simp only [checkBefore, hempty, bind, Except.bind]
  split
  · rename_i hnone
    rw [hget] at hnone
    cases hnone
  · rename_i u hu
    have hsame := Option.some.inj (hget.symm.trans hu)
    subst hsame
    split
    · rfl
    · split
      · rfl
      · cases c.expand (way ++ [w.name]) w.name none 0 w.steps with
        | error e => rfl
        | ok below => simp

/-- A reference to nothing does not expand. -/
theorem expand_unknown {workflow name : String} (hget : c.workflows.get? name = none) :
    c.expand way workflow none 0 [.workflow name] = unknownWorkflow name := by
  rw [expand]
  simp only [checkBefore, bind, Except.bind]
  split
  · rfl
  · rename_i u hu
    rw [hget] at hu
    cases hu

theorem expand_feature_eq_ok {workflow key : String} :
    c.expand way workflow none 0 [.feature key] = .ok here ↔
      c.Expands way [.feature key] here := by
  rw [expand_feature, map_eq_ok]
  constructor
  · rintro ⟨e, hget, rfl⟩
    exact .feature (feature_eq_ok.mp hget) .nil
  · intro h
    cases h with
    | feature hget hrest =>
      cases hrest
      exact ⟨_, feature_eq_ok.mpr hget, rfl⟩

theorem expand_workflow_eq_ok {workflow name : String} :
    c.expand way workflow none 0 [.workflow name] = .ok here ↔
      ∃ w, c.workflows.get? name = some w ∧ w.name ∉ way ∧ w.steps ≠ [] ∧
        c.expand (way ++ [w.name]) w.name none 0 w.steps = .ok here := by
  cases hget : c.workflows.get? name with
  | none => simp [expand_unknown hget, unknownWorkflow]
  | some w =>
    rw [expand_workflow hget]
    by_cases hmem : w.name ∈ way
    · simp [hmem, cycle]
    · by_cases hnil : w.steps = [] <;> simp [hmem, hnil, noSteps]

/-! ## All steps -/

/-- **When steps expand.** `prior` is what the step before them comes down to,
and nothing where there is none. -/
theorem expand_eq_ok (prior : List Entry) {workflow : String} {before : Option Step} {i : Nat}
    (hnone : before = none → prior = []) (hsome : ∀ p ∈ before, c.Expands way [p] prior) :
    c.expand way workflow before i steps = .ok leaves ↔
      c.Expands way steps leaves ∧ leaves.IsChain Entry.Feeds ∧ Joins Entry.Feeds prior leaves := by
  induction way, workflow, before, i, steps using expand.induct c generalizing leaves prior with
  | case1 way workflow before i =>
    rw [expand]
    constructor
    · intro h
      cases h
      exact ⟨.nil, .nil, Joins.nil_right⟩
    · rintro ⟨h, -, -⟩
      cases h
      rfl
  | case2 way workflow before i step rest ihrest ihbelow =>
    -- the first step alone: a feature, or a workflow whose steps expand on a longer way
    have hone : ∀ here, c.expand way workflow none 0 [step] = .ok here ↔
        c.Expands way [step] here ∧ here.IsChain Entry.Feeds := by
      intro here
      cases step with
      | feature key =>
        rw [expand_feature_eq_ok]
        constructor
        · intro h
          refine ⟨h, ?_⟩
          cases h with
          | feature hget hnil => cases hnil; exact .singleton _
        · exact And.left
      | workflow name =>
        rw [expand_workflow_eq_ok]
        -- nothing stands before the steps of a workflow in their own expansion
        have hfirst : ∀ longer, ∀ p ∈ (none : Option Step), c.Expands longer [p] [] :=
          fun _ p hp => absurd hp (Option.not_mem_none p)
        constructor
        · rintro ⟨w, hget, hway, hne, hsteps⟩
          obtain ⟨hsteps, hchain, -⟩ := (ihbelow name w hget hway [] (fun _ => rfl)
            (hfirst _)).mp hsteps
          have h := Expands.workflow hget hway hne hsteps .nil
          rw [List.append_nil] at h
          exact ⟨h, hchain⟩
        · rintro ⟨h, hchain⟩
          obtain ⟨w, hget, hway, hne, hsteps⟩ := h.of_workflow
          exact ⟨w, hget, hway, hne, (ihbelow name w hget hway [] (fun _ => rfl)
            (hfirst _)).mpr ⟨hsteps, hchain, Joins.nil⟩⟩
    have hcheck : ∀ {here}, c.Expands way [step] here →
        (c.checkBefore workflow before i step = .ok () ↔ Joins Entry.Feeds prior here) := by
      intro here hhere
      cases before with
      | none => simp [checkBefore, hnone rfl, Joins.nil]
      | some p => exact checkPair_eq_ok (hsome p rfl) hhere
    have hbehind : ∀ here : List Entry, some step = none → here = [] :=
      fun _ h => absurd h (Option.some_ne_none step)
    rw [expand_cons, then_eq_ok]
    constructor
    · rintro ⟨hbefore, h⟩
      obtain ⟨here, hhere, h⟩ := bind_eq_ok.mp h
      obtain ⟨later, hlater, h⟩ := bind_eq_ok.mp h
      cases h
      obtain ⟨hhere, hchain⟩ := (hone here).mp hhere
      obtain ⟨hrest, hchain', hjoin⟩ := (ihrest here (hbehind here)
        (fun p hp => Option.some.inj hp ▸ hhere)).mp hlater
      refine ⟨hhere.cons hrest, List.isChain_append.mpr ⟨hchain, hchain', hjoin⟩, ?_⟩
      exact (Joins.append_iff (hhere.ne_nil (List.cons_ne_nil _ _))).mpr
        ((hcheck hhere).mp hbefore)
    · rintro ⟨h, hchain, hjoin⟩
      obtain ⟨here, later, hhere, hrest, rfl⟩ := h.cons_inv
      obtain ⟨hchain, hchain', hjoin'⟩ := List.isChain_append.mp hchain
      rw [Joins.append_iff (hhere.ne_nil (List.cons_ne_nil _ _))] at hjoin
      refine ⟨(hcheck hhere).mpr hjoin, bind_eq_ok.mpr ⟨here, (hone here).mpr ⟨hhere, hchain⟩, ?_⟩⟩
      exact bind_eq_ok.mpr ⟨later, (ihrest here (hbehind here)
        (fun p hp => Option.some.inj hp ▸ hhere)).mpr ⟨hrest, hchain', hjoin'⟩, rfl⟩

end Catalogs

end MediaPipeline
