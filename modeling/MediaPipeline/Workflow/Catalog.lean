import MediaPipeline.Workflow.Basic
/-!
# Workflow/Catalog — the workflows on offer

A catalog lists workflows in the order of display; a reference by name means
the first workflow with that name.
-/


namespace MediaPipeline

/-- The workflows on offer, in the order of display. -/
structure WorkflowCatalog where
  workflows : List Workflow := []
  deriving Repr, Inhabited

namespace WorkflowCatalog

/-- Compresses and converts, with two ways to go on. -/
def webReady : Workflow where
  name := "Web Ready"
  description := "Compress and convert a video for the web"
  steps := [.feature "COMPRESS", .feature "CONVERT"]
  child := [
    { name := "Trimmed", description := "Then cut it to a time range",
      steps := [.feature "TRIM"] },
    { name := "Silent", description := "Then drop the audio track",
      steps := [.feature "REMOVE_AUDIO"] }]

/-- Crops and scales. -/
def socialSquare : Workflow where
  name := "Social Square"
  description := "Crop and scale a video for social feeds"
  steps := [.feature "CROP", .feature "RESIZE"]

/-- Makes a copy for the web without colour. -/
def archive : Workflow where
  name := "Archive"
  description := "Web-ready copy in black and white"
  steps := [.workflow "Web Ready", .feature "GRAYSCALE"]

/-- The workflows of this library. -/
def builtin : WorkflowCatalog := ⟨[webReady, socialSquare, archive]⟩

/-- The catalog with one workflow more at its end. -/
def push (c : WorkflowCatalog) (w : Workflow) : WorkflowCatalog := ⟨c.workflows ++ [w]⟩

/-- The first workflow with a name. -/
def get? (c : WorkflowCatalog) (name : String) : Option Workflow :=
  c.workflows.find? (·.name == name)

theorem mem_of_get? {c : WorkflowCatalog} {name : String} {w : Workflow}
    (h : c.get? name = some w) : w ∈ c.workflows :=
  List.mem_of_find?_eq_some h

theorem name_of_get? {c : WorkflowCatalog} {name : String} {w : Workflow}
    (h : c.get? name = some w) : w.name = name := by
  simpa using List.find?_some h

/-- How many workflows of the catalog have a name that is not among the given
ones. -/
def unvisited (c : WorkflowCatalog) (names : List String) : Nat :=
  (c.workflows.filter fun w => decide (w.name ∉ names)).length

/-- More names leave no more to visit. -/
theorem unvisited_append_le (c : WorkflowCatalog) (names more : List String) :
    c.unvisited (names ++ more) ≤ c.unvisited names := by
  unfold unvisited
  rw [← List.countP_eq_length_filter, ← List.countP_eq_length_filter]
  refine List.countP_mono_left fun w _ hw => ?_
  simp only [List.mem_append, not_or, decide_eq_true_eq] at hw ⊢
  exact hw.1

/-- Visiting a workflow for the first time leaves fewer to visit. -/
theorem unvisited_append_lt {c : WorkflowCatalog} {w : Workflow} {names : List String}
    (hw : w ∈ c.workflows) (hn : w.name ∉ names) :
    c.unvisited (names ++ [w.name]) < c.unvisited names := by
  unfold unvisited
  have hsub : (c.workflows.filter fun v => decide (v.name ∉ names ++ [w.name])) =
      (c.workflows.filter fun v => decide (v.name ∉ names)).filter
        fun v => decide (v.name ≠ w.name) := by
    rw [List.filter_filter]
    congr 1
    funext v
    simp [and_comm]
  rw [hsub]
  refine Nat.lt_of_le_of_ne (List.length_filter_le _ _) ?_
  intro heq
  have hall := List.length_filter_eq_length_iff.mp heq
  have hmem : w ∈ c.workflows.filter fun v => decide (v.name ∉ names) :=
    List.mem_filter.mpr ⟨hw, by simpa using hn⟩
  simpa using hall w hmem

end WorkflowCatalog

end MediaPipeline
