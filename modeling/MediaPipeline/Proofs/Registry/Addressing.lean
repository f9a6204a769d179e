import MediaPipeline.Proofs.Keyed
import MediaPipeline.Proofs.Registry.Rows
import MediaPipeline.Registry.Lookup
/-!
# Registry/Addressing — the tree, and how a node in it is found

A trail leads down through rows of nodes, from one to a row of those below it
(`Node.Leads`). Where no two nodes side by side have one name (`Node.Distinct`),
the names on a trail tell it: a search for the names finds that trail and no
other (`Node.trail?_eq_some`). A tree that was built is of that kind, since a
row of nodes is made with names that are unique, of features, of workflows and
of the children of a workflow (`distinct_of_build`). With what the two
categories hold, this says what the tree is and where each node in it is found
(`build_addresses`).
-/


namespace MediaPipeline

open Traversal

namespace Registry

namespace Node

variable {row : List Node} {n : Node} {name : String} {names : List String} {i : Nat}
variable {trail trail' : List (Nat × Node)}

/-- A trail from a row down through the nodes below, each at its place. -/
inductive Leads : List Node → List (Nat × Node) → Prop
  | stop {row : List Node} : Leads row []
  | down {row : List Node} {i : Nat} {n : Node} {trail : List (Nat × Node)}
      (here : row[i]? = some n) (below : Leads n.child trail) : Leads row ((i, n) :: trail)

/-- The names on a trail. -/
def trailNames (trail : List (Nat × Node)) : List String := trail.map (·.2.name)

/-- Rows in which no two nodes side by side have one name. -/
inductive Distinct : List Node → Prop
  | intro {row : List Node} (names : (row.map (·.name)).Nodup)
      (below : ∀ n ∈ row, Distinct n.child) : Distinct row

theorem Distinct.nodup (h : Distinct row) : (row.map (·.name)).Nodup := by
  obtain ⟨hnames, -⟩ := h
  exact hnames

theorem Distinct.child (h : Distinct row) (hn : n ∈ row) : Distinct n.child := by
  obtain ⟨-, hbelow⟩ := h
  exact hbelow n hn

theorem Distinct.nil : Distinct [] := .intro List.nodup_nil fun _ hn => absurd hn List.not_mem_nil

/-- What is picked by a name is the node that has it, where it stands. -/
theorem pick?_eq_some (hnames : (row.map (·.name)).Nodup) :
    pick? name row = some (i, n) ↔ row[i]? = some n ∧ n.name = name := by
  have hkeys : (row.zipIdx.map (·.1.name)).Nodup := by
    have hsame : row.zipIdx.map (·.1.name) = row.map (·.name) := by
      rw [← List.zipIdx_map_fst 0 row, List.map_map]
      simp
    rwa [hsame]
  have hfind : (row.zipIdx.find? fun e => e.1.name == name) = some (n, i) ↔
      (n, i) ∈ row.zipIdx ∧ n.name = name := Keyed.find?_key hkeys
  rw [List.mk_mem_zipIdx_iff_getElem?] at hfind
  rw [← hfind]
  unfold pick?
  simp

/-- **Names find the trail that has them,** and no other. -/
theorem trail?_eq_some (hrow : Distinct row) :
    trail? row names = some trail ↔ Leads row trail ∧ trailNames trail = names := by
  induction names generalizing row trail with
  | nil =>
    constructor
    · intro h
      cases h
      exact ⟨.stop, rfl⟩
    · rintro ⟨-, hnames⟩
      rw [List.map_eq_nil_iff.mp hnames]
      rfl
  | cons name rest ih =>
    rw [trail?]
    constructor
    · intro h
      obtain ⟨⟨i, n⟩, hpick, h⟩ := Option.bind_eq_some_iff.mp h
      obtain ⟨more, hmore, h⟩ := Option.bind_eq_some_iff.mp h
      cases h
      obtain ⟨hn, rfl⟩ := (pick?_eq_some hrow.nodup).mp hpick
      obtain ⟨hleads, hnames⟩ := (ih (hrow.child (List.mem_of_getElem? hn))).mp hmore
      exact ⟨.down hn hleads, congrArg (n.name :: ·) hnames⟩
    · rintro ⟨hleads, hnames⟩
      cases hleads with
      | stop => cases hnames
      | down hn hbelow =>
        rename_i i n more
        obtain ⟨hname, hnames⟩ := List.cons_eq_cons.mp hnames
        have hpick := (pick?_eq_some hrow.nodup).mpr ⟨hn, hname⟩
        have hmore := (ih (hrow.child (List.mem_of_getElem? hn))).mpr ⟨hbelow, hnames⟩
        exact Option.bind_eq_some_iff.mpr
          ⟨(i, n), hpick, Option.bind_eq_some_iff.mpr ⟨more, hmore, rfl⟩⟩

/-- **One trail has given names.** -/
theorem Leads.unique (hrow : Distinct row) (h : Leads row trail) (h' : Leads row trail')
    (hnames : trailNames trail = trailNames trail') : trail = trail' := by
  have hfound := (trail?_eq_some hrow).mpr ⟨h, rfl⟩
  have hfound' := (trail?_eq_some hrow).mpr ⟨h', hnames.symm⟩
  rw [hfound] at hfound'
  exact Option.some.inj hfound'

end Node

variable {c : Catalogs} {settings : Settings.Catalog} {r : Registry}
variable {nodes : List Node} {n : Node} {e : Entry} {w : Workflow} {path : String}

theorem trail?_eq_some {trail : List (Nat × Node)} (hroots : Node.Distinct r.roots) :
    r.trail? path = some trail ↔ Selection.segments path ≠ [] ∧
      Node.Leads r.roots trail ∧ Node.trailNames trail = Selection.segments path := by
  unfold trail?
  split
  · rename_i hnil
    simp [hnil]
  · rename_i names hne
    rw [Node.trail?_eq_some hroots]
    exact (and_iff_right hne).symm

/-- **What a path leads to** is the last node on the trail with the names that
the path holds. -/
theorem get?_eq_some (hroots : Node.Distinct r.roots) :
    r.get? path = some n ↔ ∃ trail i, Node.Leads r.roots trail ∧
      trail.getLast? = some (i, n) ∧ Node.trailNames trail = Selection.segments path := by
  unfold get?
  simp only [Option.bind_eq_some_iff, Option.map_eq_some_iff, trail?_eq_some hroots]
  constructor
  · rintro ⟨trail, ⟨-, hleads, hnames⟩, ⟨i, m⟩, hlast, rfl⟩
    exact ⟨trail, i, hleads, hlast, hnames⟩
  · rintro ⟨trail, i, hleads, hlast, hnames⟩
    have hne : Selection.segments path ≠ [] := by
      rintro hnil
      rw [hnil] at hnames
      rw [List.map_eq_nil_iff.mp hnames] at hlast
      cases hlast
    exact ⟨trail, ⟨hne, hleads, hnames⟩, (i, n), hlast, rfl⟩

/-! ## The rows of a tree that was built -/

theorem distinct_of_featureNode (h : featureNode e = .ok n) : Node.Distinct n.child := by
  obtain ⟨-, rfl⟩ := featureNode_eq_ok.mp h
  exact .nil

/-- The induction is over the workflow and those below it. -/
theorem distinct_of_workflowNode (h : workflowNode w = .ok n) : Node.Distinct n.child := by
  induction w using Workflow.below_induction generalizing n with
  | h w ih =>
    obtain ⟨-, below, hbelow, hnames, rfl⟩ := workflowNode_eq_ok.mp h
    refine .intro hnames fun m hm => ?_
    obtain ⟨v, hv, hm⟩ := hbelow.of_mem hm
    exact ih v hv hm

/-- The command for verbatim arguments stands alone, if at all, and has nothing
below it. -/
theorem customRunNodes_eq_ok (h : customRunNodes c = .ok nodes) :
    nodes = [] ∨ ∃ n, nodes = [n] ∧ n.name = customRunName ∧ n.child = [] := by
  unfold customRunNodes at h
  cases hget : c.features.get? customRunKey with
  | none =>
    rw [hget] at h
    cases h
    exact .inl rfl
  | some e =>
    rw [hget] at h
    obtain ⟨m, hm, rfl⟩ := map_eq_ok.mp h
    obtain ⟨-, rfl⟩ := featureNode_eq_ok.mp hm
    exact .inr ⟨_, rfl, rfl, rfl⟩

/-- The roots have names of their own. -/
theorem nodup_rootNames {features flows custom : List Node} (h : customRunNodes c = .ok custom) :
    (([featuresNode features, workflowsNode flows] ++ custom ++ [clearNode]).map
      (·.name)).Nodup := by
  have hcustom : custom.map (·.name) = [] ∨ custom.map (·.name) = [customRunName] := by
    rcases customRunNodes_eq_ok h with rfl | ⟨n, rfl, hname, -⟩
    · exact .inl rfl
    · exact .inr (congrArg (fun name => [name]) hname)
  rw [List.map_append, List.map_append]
  rcases hcustom with hnames | hnames
  · rw [hnames]
    exact (by decide : [featuresName, workflowsName, clearName].Nodup)
  · rw [hnames]
    exact (by decide : [featuresName, workflowsName, customRunName, clearName].Nodup)

/-- The tree has a row of features and one of workflows, each made of what is
not left out, under names of their own. -/
theorem exists_rows_of_build (h : build c settings = .ok r) :
    ∃ features flows custom,
      r.roots = [featuresNode features, workflowsNode flows] ++ custom ++ [clearNode] ∧
      Made featureNode (c.features.entries.filter fun e => !isHidden settings e) features ∧
      (features.map (·.name)).Nodup ∧
      Made workflowNode
        (c.workflows.workflows.filter fun w => !settings.disabledWorkflows.contains w.name) flows ∧
      (flows.map (·.name)).Nodup ∧ customRunNodes c = .ok custom := by
  obtain ⟨-, -, -, features, flows, custom, hfeatures, hflows, hcustom, rfl⟩ := build_eq_ok.mp h
  obtain ⟨-, hfeatures, hfeatureNames⟩ := (foldlM_row_nil adds_feature).mp hfeatures
  obtain ⟨-, hflows, hflowNames⟩ := (foldlM_row_nil adds_workflow).mp hflows
  exact ⟨features, flows, custom, rfl, hfeatures, hfeatureNames, hflows, hflowNames, hcustom⟩

/-- **In a tree that was built, no two nodes side by side have one name.** -/
theorem distinct_of_build (h : build c settings = .ok r) : Node.Distinct r.roots := by
  obtain ⟨features, flows, custom, hroots, hfeatures, hfeatureNames, hflows, hflowNames,
    hcustom⟩ := exists_rows_of_build h
  rw [hroots]
  refine .intro (nodup_rootNames hcustom) fun n hn => ?_
  -- only the categories have nodes below them that could share a name
  simp only [List.mem_append, List.mem_cons, List.not_mem_nil, or_false] at hn
  rcases hn with ((rfl | rfl) | hn) | rfl
  · refine .intro hfeatureNames fun m hm => ?_
    obtain ⟨e, -, he⟩ := hfeatures.of_mem hm
    exact distinct_of_featureNode he
  · refine .intro hflowNames fun m hm => ?_
    obtain ⟨w, -, hw⟩ := hflows.of_mem hm
    exact distinct_of_workflowNode hw
  · rcases customRunNodes_eq_ok hcustom with rfl | ⟨m, rfl, -, hchild⟩
    · exact absurd hn List.not_mem_nil
    · rw [List.mem_singleton.mp hn, hchild]
      exact .nil
  · exact .nil

/-! ## The tree and its addresses -/

/-- **What a tree that was built is,** and where its nodes are found. Below the
category of features there is one node for each entry that is not left out,
in the order of the catalog, which runs that feature; below that of workflows
one for each workflow that is not disabled, in order, which describes the
workflow with its children at every depth. No two nodes side by side have one
name, so names lead along one trail at most; and a path leads to a node exactly
where it holds the names on a trail to the node. -/
theorem build_addresses (h : build c settings = .ok r) :
    (∃ features flows custom,
      r.roots = [featuresNode features, workflowsNode flows] ++ custom ++ [clearNode] ∧
      List.Forall₂ (fun e n => n.name = e.name ∧ n.steps = [.feature e.key])
        (c.features.entries.filter fun e => !(e.hidden || settings.hiddenFeatures.contains e.key))
        features ∧
      List.Forall₂ (fun w n => n.toWorkflow = w)
        (c.workflows.workflows.filter fun w => !settings.disabledWorkflows.contains w.name)
        flows) ∧
    Node.Distinct r.roots ∧
    (∀ path n, r.get? path = some n ↔ ∃ trail i, Node.Leads r.roots trail ∧
      trail.getLast? = some (i, n) ∧ Node.trailNames trail = Selection.segments path) ∧
    ∀ trail trail', Node.Leads r.roots trail → Node.Leads r.roots trail' →
      Node.trailNames trail = Node.trailNames trail' → trail = trail' := by
  have hdistinct := distinct_of_build h
  refine ⟨?_, hdistinct, fun path n => get?_eq_some hdistinct,
    fun trail trail' hleads hleads' => hleads.unique hdistinct hleads'⟩
  obtain ⟨features, flows, custom, hroots, hfeatures, -, hflows, -⟩ := exists_rows_of_build h
  refine ⟨features, flows, custom, hroots, hfeatures.imp fun e n he => ?_,
    hflows.imp fun w n hw => (toWorkflow_of_workflowNode w n hw).1⟩
  obtain ⟨-, rfl⟩ := featureNode_eq_ok.mp he
  exact ⟨rfl, rfl⟩

theorem build_addresses_newsreels :
    ∃ r n trail i, build newsreels ⟨["GRAYSCALE"], ["Mute"]⟩ = .ok r ∧
      r.get? "Workflows//Newsreel/ Epilogue" = some n ∧ Node.Leads r.roots trail ∧
      trail.getLast? = some (i, n) ∧
      Node.trailNames trail = ["Workflows", "Newsreel", "Epilogue"] := by
  have hbuild : ∃ r n, build newsreels ⟨["GRAYSCALE"], ["Mute"]⟩ = .ok r ∧
      r.get? "Workflows//Newsreel/ Epilogue" = some n := ⟨_, _, by cbv, by cbv⟩
  obtain ⟨r, n, hbuild, hget⟩ := hbuild
  obtain ⟨-, -, haddresses, -⟩ := build_addresses hbuild
  obtain ⟨trail, i, hleads, hlast, hnames⟩ := (haddresses _ n).mp hget
  have hsegments : Selection.segments "Workflows//Newsreel/ Epilogue" =
      ["Workflows", "Newsreel", "Epilogue"] := by cbv
  exact ⟨r, n, trail, i, hbuild, hget, hleads, hlast, hnames.trans hsegments⟩

end Registry

end MediaPipeline
