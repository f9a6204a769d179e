import MediaPipeline.Proofs.Registry.Rows
/-!
# Registry/Disabling — which faults can be left out of the tree

`Buildable` says of catalogs and settings, condition by condition, when they
make a tree (`exists_build_iff`). Only two of the conditions read the settings:
a feature that is hidden need not have a node, and a workflow that is disabled
need not be formed. So a list of disabled workflows lets catalogs through that
make no tree without it exactly where one of those workflows is not formed, and
nothing else is wrong (`build_disabled_iff`). Two kinds of faults pass in that
way: children under one name, and workflows without steps
(`not_fault_of_disabled`).
-/


namespace MediaPipeline

open Traversal

namespace Registry

variable {c : Catalogs} {settings : Settings.Catalog} {hidden disabled : List String}

/-- What catalogs have to be like to make a tree. -/
structure Buildable (c : Catalogs) (settings : Settings.Catalog) : Prop where
  keys : (c.features.entries.map (·.key)).Nodup
  names : (c.features.entries.map (·.name)).Nodup
  workflowNames : (c.workflows.workflows.map (·.name)).Nodup
  features : ∀ e ∈ c.features.entries, isHidden settings e = false → ∃ n, featureNode e = .ok n
  references : ∀ w ∈ c.workflows.workflows, checkReferences c [w.name] w = .ok ()
  formed : ∀ w ∈ c.workflows.workflows, w.name ∉ settings.disabledWorkflows → w.Formed
  custom : ∃ nodes, customRunNodes c = .ok nodes

/-- The features make a row where those that are listed have nodes. -/
theorem exists_features_iff (hnames : (c.features.entries.map (·.name)).Nodup) :
    (∃ nodes, c.features.entries.foldlM (addFeature settings) [] = .ok nodes) ↔
      ∀ e ∈ c.features.entries, isHidden settings e = false → ∃ n, featureNode e = .ok n := by
  rw [exists_row_iff adds_feature (fun _ _ => name_of_featureNode) hnames]
  simp only [implies_true, true_and, Bool.not_eq_true']

/-- The workflows make a row where the references of all of them are sound and
those that are listed are formed. -/
theorem exists_flows_iff (hnames : (c.workflows.workflows.map (·.name)).Nodup) :
    (∃ nodes, c.workflows.workflows.foldlM (addWorkflow c settings) [] = .ok nodes) ↔
      (∀ w ∈ c.workflows.workflows, checkReferences c [w.name] w = .ok ()) ∧
        ∀ w ∈ c.workflows.workflows, w.name ∉ settings.disabledWorkflows → w.Formed := by
  rw [exists_row_iff adds_workflow (fun _ _ => name_of_workflowNode) hnames]
  simp only [exists_workflowNode_iff, Bool.not_eq_true', List.contains_eq_mem,
    decide_eq_false_iff_not]

/-- **When catalogs make a tree.** -/
theorem exists_build_iff : (∃ r, build c settings = .ok r) ↔ Buildable c settings := by
  simp only [build_eq_ok, checkKeys_eq_ok, checkNames_eq_ok]
  constructor
  · rintro ⟨r, hkeys, hnames, hflownames, features, flows, custom, hfeatures, hflows, hcustom, -⟩
    obtain ⟨hreferences, hformed⟩ := (exists_flows_iff hflownames).mp ⟨flows, hflows⟩
    exact ⟨hkeys, hnames, hflownames, (exists_features_iff hnames).mp ⟨features, hfeatures⟩,
      hreferences, hformed, custom, hcustom⟩
  · intro h
    obtain ⟨features, hfeatures⟩ := (exists_features_iff h.names).mpr h.features
    obtain ⟨flows, hflows⟩ := (exists_flows_iff h.workflowNames).mpr ⟨h.references, h.formed⟩
    obtain ⟨custom, hcustom⟩ := h.custom
    exact ⟨_, h.keys, h.names, h.workflowNames, features, flows, custom, hfeatures, hflows,
      hcustom, rfl⟩

/-- **What disabling can let through.** With the same features hidden, catalogs
make a tree with nothing disabled exactly where they make one with a list of
disabled workflows and each of these is formed. Keys and names of the
catalogs, and references anywhere in them, are no matter of the list. -/
theorem build_disabled_iff (c : Catalogs) (hidden disabled : List String) :
    (∃ r, build c ⟨hidden, []⟩ = .ok r) ↔ (∃ r, build c ⟨hidden, disabled⟩ = .ok r) ∧
      ∀ w ∈ c.workflows.workflows, w.name ∈ disabled → w.Formed := by
  rw [exists_build_iff, exists_build_iff]
  constructor
  · intro h
    have hformed : ∀ w ∈ c.workflows.workflows, w.Formed :=
      fun w hw => h.formed w hw List.not_mem_nil
    exact ⟨⟨h.keys, h.names, h.workflowNames, h.features, h.references,
      fun w hw _ => hformed w hw, h.custom⟩, fun w hw _ => hformed w hw⟩
  · -- what is not on the list was formed already, and the rest is now asked for
    rintro ⟨h, hdisabled⟩
    refine ⟨h.keys, h.names, h.workflowNames, h.features, h.references, fun w hw _ => ?_, h.custom⟩
    by_cases hw' : w.name ∈ disabled
    · exact hdisabled w hw hw'
    · exact h.formed w hw hw'

/-- A workflow with two children under one name. -/
def revue : Workflow where
  name := "Revue"
  steps := [.feature "GRAYSCALE"]
  child := [{ name := "Encore", steps := [.feature "GRAYSCALE"] },
    { name := "Encore", steps := [.feature "REMOVE_AUDIO"] }]

/-- A workflow without steps. -/
def rest : Workflow where
  name := "Rest"
  steps := []

/-- A workflow that refers to one without steps. -/
def suite : Workflow where
  name := "Suite"
  steps := [.workflow "Rest", .feature "GRAYSCALE"]

/-- Catalogs with given workflows, over two features. -/
def concert (workflows : List Workflow) : Catalogs := ⟨⟨[.grayscale, .removeAudio]⟩, ⟨workflows⟩⟩

/-- **A fault inside a disabled workflow is let through,** whether it is a name
that occurs twice among children or a workflow without steps, even one that
another workflow in the tree refers to. -/
theorem not_fault_of_disabled :
    (¬ ∀ (c : Catalogs) (hidden disabled : List String) (name scope : String),
      build c ⟨hidden, []⟩ = fault (.duplicateCommand name scope) →
        ∀ r, build c ⟨hidden, disabled⟩ ≠ .ok r) ∧
    ¬ ∀ (c : Catalogs) (hidden disabled : List String) (name : String),
      build c ⟨hidden, []⟩ = fault (.emptyWorkflow name) →
        ∀ r, build c ⟨hidden, disabled⟩ ≠ .ok r := by
  constructor
  · intro hall
    have hfault : build (concert [revue]) ⟨[], []⟩ =
        fault (.duplicateCommand "Encore" "Revue") := by cbv
    have hbuild : ∃ r, build (concert [revue]) ⟨[], ["Revue"]⟩ = .ok r := ⟨_, by cbv⟩
    obtain ⟨r, hbuild⟩ := hbuild
    exact hall _ _ _ _ _ hfault r hbuild
  · intro hall
    have hfault : build (concert [rest, suite]) ⟨[], []⟩ = fault (.emptyWorkflow "Rest") := by cbv
    have hbuild : ∃ r, build (concert [rest, suite]) ⟨[], ["Rest"]⟩ = .ok r := ⟨_, by cbv⟩
    obtain ⟨r, hbuild⟩ := hbuild
    exact hall _ _ _ _ hfault r hbuild

end Registry

end MediaPipeline
