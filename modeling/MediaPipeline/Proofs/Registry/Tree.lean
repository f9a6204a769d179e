import Mathlib.Data.List.Permutation
import MediaPipeline.Proofs.Feature.Blame
import MediaPipeline.Proofs.Registry.References
import MediaPipeline.Registry.Lookup

-- Mathlib.Data.List.Permutation holds the equation of `Prod.snd` by which `cbv`
-- evaluates; without it each module would derive that equation again.

/-!
# Registry/Tree — what stands in a tree of commands that was built

A tree that was built has the features and the workflows below its two
categories, and every workflow of the catalog was checked, also those that are
left out (`build_eq_ok`, `checkReferences_of_build`). The node of a workflow
describes that very workflow (`toWorkflow_of_workflowNode`), so whatever a
selection is resolved to was checked (`checkReferences_of_resolve`), and
nothing that is planned, compiled or searched afterwards fails by a reference
(`build_spares`), as long as no feature answers with such a failure itself. The
features of this library never do (`builtin_spares`).
-/


namespace MediaPipeline

open Traversal

namespace Registry

variable {c : Catalogs} {settings : Settings.Catalog} {r : Registry}
variable {nodes done : List Node} {n m : Node} {e : Entry} {w : Workflow}

/-! ## Rows of nodes -/

theorem pushNode_eq_ok {scope : String} :
    pushNode scope done n = .ok nodes ↔ n.name ∉ done.map (·.name) ∧ nodes = done ++ [n] := by
  unfold pushNode
  by_cases hmem : n.name ∈ done.map (·.name)
  · rw [if_pos hmem]
    constructor
    · intro h
      cases h
    · exact fun h => absurd hmem h.1
  · rw [if_neg hmem, Except.ok.injEq]
    exact ⟨fun h => ⟨hmem, h.symm⟩, fun h => h.2.symm⟩

/-- The node of a feature compiles to the feature alone. -/
theorem toWorkflow_of_featureNode (h : featureNode e = .ok n) :
    n.toWorkflow = ⟨e.name, e.description, [.feature e.key], []⟩ ∧
      n.kind.isCompilable = true := by
  unfold featureNode at h
  split at h
  · cases h
    exact ⟨by simp [Node.toWorkflow, Node.toWorkflows], rfl⟩
  · split at h
    · cases h
      exact ⟨by simp [Node.toWorkflow, Node.toWorkflows], rfl⟩
    · cases h

/-- A node under another name describes the same workflow under that name. -/
theorem toWorkflow_rename (n : Node) (name : String) :
    Node.toWorkflow { n with name := name } = { n.toWorkflow with name := name } := by
  cases n
  simp [Node.toWorkflow]

theorem toWorkflows_append (more : List Node) :
    Node.toWorkflows (nodes ++ more) = Node.toWorkflows nodes ++ Node.toWorkflows more := by
  induction nodes with
  | nil => simp [Node.toWorkflows]
  | cons n nodes ih => simp [Node.toWorkflows, ih]

mutual

/-- **The node of a workflow describes that workflow,** with its children at
every depth. -/
theorem toWorkflow_of_workflowNode (w : Workflow) (n : Node) (h : workflowNode w = .ok n) :
    n.toWorkflow = w ∧ n.kind.isCompilable = true := by
  match w with
  | ⟨name, description, steps, child⟩ =>
    rw [workflowNode] at h
    split at h
    · cases h
    · obtain ⟨nodes, hnodes, h⟩ := bind_eq_ok.mp h
      cases h
      have hchild := toWorkflows_of_childNodes child name [] nodes hnodes
      exact ⟨by rw [Node.toWorkflow, hchild]; rfl, rfl⟩

/-- And so do the nodes of its children, behind those that are finished. -/
theorem toWorkflows_of_childNodes (ws : List Workflow) (scope : String) (done nodes : List Node)
    (h : childNodes scope done ws = .ok nodes) :
    Node.toWorkflows nodes = Node.toWorkflows done ++ ws := by
  match ws with
  | [] =>
    rw [childNodes] at h
    cases h
    rw [List.append_nil]
  | w :: rest =>
    rw [childNodes] at h
    obtain ⟨n, hn, h⟩ := bind_eq_ok.mp h
    obtain ⟨pushed, hpushed, h⟩ := bind_eq_ok.mp h
    obtain ⟨-, rfl⟩ := pushNode_eq_ok.mp hpushed
    obtain ⟨hw, -⟩ := toWorkflow_of_workflowNode w n hn
    have hrest := toWorkflows_of_childNodes rest scope (done ++ [n]) nodes h
    rw [hrest, toWorkflows_append, Node.toWorkflows, Node.toWorkflows, hw, List.append_assoc]
    rfl

end

/-! ## The tree -/

/-- **When catalogs make a tree,** and which. -/
theorem build_eq_ok :
    build c settings = .ok r ↔
      checkKeys (c.features.entries.map (·.key)) = .ok () ∧
      checkNames featuresName (c.features.entries.map (·.name)) = .ok () ∧
      checkNames workflowsName (c.workflows.workflows.map (·.name)) = .ok () ∧
      ∃ features flows custom,
        c.features.entries.foldlM (addFeature settings) [] = .ok features ∧
        c.workflows.workflows.foldlM (addWorkflow c settings) [] = .ok flows ∧
        customRunNodes c = .ok custom ∧
        r = ⟨c, [featuresNode features, workflowsNode flows] ++ custom ++ [clearNode]⟩ := by
  unfold build
  rw [then_eq_ok, then_eq_ok, then_eq_ok]
  simp only [bind_eq_ok, Except.ok.injEq]
  constructor
  · rintro ⟨hkeys, hnames, hnames', features, hfeatures, flows, hflows, custom, hcustom, rfl⟩
    exact ⟨hkeys, hnames, hnames', features, flows, custom, hfeatures, hflows, hcustom, rfl⟩
  · rintro ⟨hkeys, hnames, hnames', features, flows, custom, hfeatures, hflows, hcustom, rfl⟩
    exact ⟨hkeys, hnames, hnames', features, hfeatures, flows, hflows, custom, hcustom, rfl⟩

/-- Every workflow of the catalog was checked, whether or not it is left out. -/
theorem checkReferences_of_build (h : build c settings = .ok r) (hw : w ∈ c.workflows.workflows) :
    checkReferences c [w.name] w = .ok () := by
  obtain ⟨-, -, -, _, flows, _, -, hflows, -, -⟩ := build_eq_ok.mp h
  obtain ⟨before, after, hadd⟩ := exists_of_foldlM_eq_ok hflows hw
  unfold addWorkflow at hadd
  exact (then_eq_ok.mp hadd).1

/-! ## What compiles -/

/-- A command that compiles, to a workflow that was checked. -/
structure Node.Checked (c : Catalogs) (n : Node) : Prop where
  compilable : n.kind.isCompilable = true
  references : checkReferences c [n.toWorkflow.name] n.toWorkflow = .ok ()

/-- A feature of the catalog refers to itself and nothing else. -/
theorem checkReferences_feature {name description : String}
    (hkey : (c.features.get? e.key).isSome) :
    checkReferences c [name] ⟨name, description, [.feature e.key], []⟩ = .ok () := by
  refine checkReferences_eq_ok.mpr ⟨fun step hstep => ?_, fun v hv => absurd hv List.not_mem_nil⟩
  rw [List.mem_singleton.mp hstep]
  exact hkey

theorem isSome_get?_of_mem (he : e ∈ c.features.entries) : (c.features.get? e.key).isSome := by
  unfold FeatureCatalog.get?
  rw [List.find?_isSome]
  exact ⟨e, he, beq_self_eq_true _⟩

/-- A row of checked nodes with one more. -/
theorem checked_of_pushNode {scope : String} (hdone : ∀ m ∈ done, Node.Checked c m)
    (hn : Node.Checked c n) (h : pushNode scope done n = .ok nodes) :
    ∀ m ∈ nodes, Node.Checked c m := by
  obtain ⟨-, rfl⟩ := pushNode_eq_ok.mp h
  intro m hm
  rcases List.mem_append.mp hm with hm | hm
  · exact hdone m hm
  · rw [List.mem_singleton.mp hm]
    exact hn

theorem checked_features (h : c.features.entries.foldlM (addFeature settings) [] = .ok nodes) :
    ∀ n ∈ nodes, Node.Checked c n := by
  refine foldlM_induction (P := fun row : List Node => ∀ n ∈ row, Node.Checked c n) h
    (fun n hn => absurd hn List.not_mem_nil) fun e he row next hrow hadd => ?_
  unfold addFeature at hadd
  split at hadd
  · cases hadd
    exact hrow
  · obtain ⟨n, hn, hpush⟩ := bind_eq_ok.mp hadd
    obtain ⟨hworkflow, hkind⟩ := toWorkflow_of_featureNode hn
    refine checked_of_pushNode hrow ⟨hkind, ?_⟩ hpush
    rw [hworkflow]
    exact checkReferences_feature (isSome_get?_of_mem he)

theorem checked_flows
    (h : c.workflows.workflows.foldlM (addWorkflow c settings) [] = .ok nodes) :
    ∀ n ∈ nodes, Node.Checked c n := by
  refine foldlM_induction (P := fun row : List Node => ∀ n ∈ row, Node.Checked c n) h
    (fun n hn => absurd hn List.not_mem_nil) fun w hw row next hrow hadd => ?_
  unfold addWorkflow at hadd
  obtain ⟨hreferences, hadd⟩ := then_eq_ok.mp hadd
  split at hadd
  · cases hadd
    exact hrow
  · obtain ⟨n, hn, hpush⟩ := bind_eq_ok.mp hadd
    obtain ⟨hworkflow, hkind⟩ := toWorkflow_of_workflowNode w n hn
    refine checked_of_pushNode hrow ⟨hkind, ?_⟩ hpush
    rw [hworkflow]
    exact hreferences

theorem checked_custom (h : customRunNodes c = .ok nodes) : ∀ n ∈ nodes, Node.Checked c n := by
  unfold customRunNodes at h
  cases hget : c.features.get? customRunKey with
  | none =>
    rw [hget] at h
    cases h
    exact fun n hn => absurd hn List.not_mem_nil
  | some e =>
    rw [hget] at h
    obtain ⟨n, hn, rfl⟩ := map_eq_ok.mp h
    obtain ⟨hworkflow, hkind⟩ := toWorkflow_of_featureNode hn
    intro m hm
    rw [List.mem_singleton.mp hm]
    refine ⟨hkind, ?_⟩
    -- its node has a name of its own, which the workflow takes over
    rw [toWorkflow_rename, hworkflow]
    exact checkReferences_feature (isSome_get?_of_mem (List.mem_of_find?_eq_some hget))

/-- **In a tree that was built, a command compiles to what was checked,** or it
is a category of such commands, or an action. -/
theorem checked_of_build (h : build c settings = .ok r) :
    ∀ n ∈ r.roots, Node.Checked c n ∨
      n.kind.isCompilable = false ∧ ∀ m ∈ n.child, Node.Checked c m := by
  obtain ⟨-, -, -, features, flows, custom, hfeatures, hflows, hcustom, rfl⟩ := build_eq_ok.mp h
  intro n hn
  simp only [List.mem_append, List.mem_cons, List.not_mem_nil, or_false] at hn
  rcases hn with ((rfl | rfl) | hn) | rfl
  · exact .inr ⟨rfl, checked_features hfeatures⟩
  · exact .inr ⟨rfl, checked_flows hflows⟩
  · exact .inl (checked_custom hcustom n hn)
  · exact .inr ⟨rfl, fun m hm => absurd hm List.not_mem_nil⟩

/-! ## What a selection is resolved to -/

theorem mem_of_pick? {name : String} {i : Nat} (h : Node.pick? name nodes = some (i, n)) :
    n ∈ nodes := by
  unfold Node.pick? at h
  obtain ⟨⟨m, j⟩, hfind, heq⟩ := Option.map_eq_some_iff.mp h
  cases heq
  exact List.fst_mem_of_mem_zipIdx (List.mem_of_find?_eq_some hfind)

theorem trail?_cons {name : String} {rest : List String} {trail : List (Nat × Node)}
    (h : Node.trail? nodes (name :: rest) = some trail) :
    ∃ i n more, n ∈ nodes ∧ Node.trail? n.child rest = some more ∧ trail = (i, n) :: more := by
  rw [Node.trail?] at h
  obtain ⟨⟨i, n⟩, hpick, h⟩ := Option.bind_eq_some_iff.mp h
  obtain ⟨more, hmore, h⟩ := Option.bind_eq_some_iff.mp h
  cases h
  exact ⟨i, n, more, mem_of_pick? hpick, hmore, rfl⟩

/-- The first command of a trail that compiles is checked, if that is how the
tree is: it stands at the root or just below. -/
theorem checked_of_owner? {names : List String} {trail : List (Nat × Node)} {path : List Nat}
    (hroots : ∀ n ∈ nodes, Node.Checked c n ∨
      n.kind.isCompilable = false ∧ ∀ m ∈ n.child, Node.Checked c m)
    (htrail : Node.trail? nodes names = some trail) (howner : owner? trail = some (n, path)) :
    Node.Checked c n := by
  cases names with
  | nil => cases htrail; cases howner
  | cons name rest =>
    obtain ⟨i, m, more, hm, hmore, rfl⟩ := trail?_cons htrail
    rw [owner?] at howner
    rcases hroots m hm with hchecked | ⟨hkind, hchild⟩
    · rw [if_pos hchecked.compilable] at howner
      cases howner
      exact hchecked
    · rw [hkind, if_neg Bool.false_ne_true] at howner
      -- behind a category, the next command on the trail compiles
      cases rest with
      | nil => cases hmore; cases howner
      | cons name' rest' =>
        obtain ⟨i', m', more', hm', _, rfl⟩ := trail?_cons hmore
        have hchecked := hchild m' hm'
        rw [owner?, if_pos hchecked.compilable] at howner
        cases howner
        exact hchecked

/-- What a selection is resolved to is the workflow of the first command on
its trail that compiles. -/
theorem exists_of_resolve_eq_ok {s : Selection} {target : Workflow × List Nat}
    (h : r.resolve s = .ok target) :
    ∃ names trail n path, Node.trail? r.roots names = some trail ∧
      owner? trail = some (n, path) ∧ target = (n.toWorkflow, path ++ s.child) := by
  unfold resolve at h
  cases htrail : r.trail? s.path with
  | none =>
    rw [htrail] at h
    cases h
  | some trail =>
    have hwalk : ∃ names, Node.trail? r.roots names = some trail := by
      unfold trail? at htrail
      split at htrail
      · cases htrail
      · exact ⟨_, htrail⟩
    obtain ⟨names, hwalk⟩ := hwalk
    rw [htrail] at h
    dsimp only at h
    split at h
    · cases h
    · split at h
      · split at h
        · cases h
        · rename_i n path howner
          cases h
          exact ⟨names, trail, n, path, hwalk, howner, rfl⟩
      · cases h

/-- **What a selection is resolved to was checked.** -/
theorem checkReferences_of_resolve (h : build c settings = .ok r) {s : Selection}
    {target : Workflow × List Nat} (hs : r.resolve s = .ok target) :
    checkReferences c [target.1.name] target.1 = .ok () := by
  obtain ⟨names, trail, n, path, hwalk, howner, rfl⟩ := exists_of_resolve_eq_ok hs
  exact (checked_of_owner? (checked_of_build h) hwalk howner).references

theorem catalogs_of_build (h : build c settings = .ok r) : r.catalogs = c := by
  obtain ⟨-, -, -, _, _, _, -, -, -, rfl⟩ := build_eq_ok.mp h
  rfl

/-- The steps of a descendant were checked on some way. -/
theorem clears_of_descendant? {way : List String} {path : List Nat} {v : Workflow}
    (h : checkReferences c way w = .ok ()) (hv : w.descendant? path = some v) :
    ∃ way', ∀ step ∈ v.steps, Clears c way' step := by
  induction path generalizing way w with
  | nil =>
    cases hv
    exact ⟨way, (checkReferences_eq_ok.mp h).1⟩
  | cons n path ih =>
    obtain ⟨u, hu, hv⟩ := Option.bind_eq_some_iff.mp hv
    obtain ⟨-, hchild⟩ := (checkReferences_eq_ok.mp h).2 u (List.mem_of_getElem? hu)
    exact ih hchild hv

/-- A feature of this library fails by what it was given, not by a reference. -/
theorem builtin_spares (he : e ∈ FeatureCatalog.builtin.entries) (given : Configuration) :
    Spares (e.feature.compile given) := by
  refine (isUserError_of_builtin he given).mono fun err huser => ?_
  cases err <;> first | exact id | cases huser

/-- **In a tree that was built no reference fails afterwards.** Whatever a
selection is resolved to can be planned along any path, checked and compiled
without a failure of a reference, unless a feature itself answers its
configuration with one; and so can both ends of every step be found that the
workflows of the catalog and their descendants declare. Over features that never
answer so, as those of this library, compiling has no exception. -/
theorem build_spares (h : build c settings = .ok r) :
    (∀ s target, r.resolve s = .ok target →
      (∀ path base, Spares (r.catalogs.plan target.1 path base)) ∧
      Spares (r.catalogs.check target.1) ∧
      ∀ path configs base e, r.catalogs.compileAt target.1 path configs base = .error e →
        ¬ e.BlamesReference ∨
          ∃ planned q given, r.catalogs.plan target.1 path base = .ok planned ∧ q ∈ planned ∧
            configs.resolve q.index q.entry = .ok given ∧
            q.entry.feature.compile given = .error e) ∧
    (∀ w ∈ r.catalogs.workflows.workflows, ∀ path v, w.descendant? path = some v →
      ∀ step ∈ v.steps, Spares (r.catalogs.outputType step) ∧
        Spares (r.catalogs.inputIntake step)) ∧
    ((∀ e ∈ r.catalogs.features.entries, ∀ given, Spares (e.feature.compile given)) →
      ∀ s target, r.resolve s = .ok target → ∀ path configs base,
        Spares (r.catalogs.compileAt target.1 path configs base)) ∧
    ∀ e ∈ FeatureCatalog.builtin.entries, ∀ given, Spares (e.feature.compile given) := by
  rw [catalogs_of_build h]
  refine ⟨fun s target hs => ?_, fun w hw path v hv step hstep => ?_,
    fun hfeatures s target hs => Catalogs.compileAt_spares hfeatures
      (checkReferences_of_resolve h hs),
    fun _ he => builtin_spares he⟩
  · have hchecked := checkReferences_of_resolve h hs
    exact ⟨Catalogs.plan_spares hchecked, Catalogs.check_spares hchecked,
      fun _ _ _ _ => Catalogs.compileAt_eq_error hchecked⟩
  · obtain ⟨way, hclears⟩ := clears_of_descendant? (checkReferences_of_build h hw) hv
    have hcleared := hclears step hstep
    exact ⟨Catalogs.outputType_spares hcleared, Catalogs.inputIntake_spares hcleared⟩

/-- A workflow that refers to another one, as does its child. -/
def newsreel : Workflow where
  name := "Newsreel"
  steps := [.workflow "Mute", .feature "GRAYSCALE"]
  child := [{ name := "Epilogue", steps := [.workflow "Mute"] }]

/-- Catalogs for it. -/
def newsreels : Catalogs where
  features := ⟨[.grayscale, .removeAudio]⟩
  workflows := ⟨[{ name := "Mute", steps := [.feature "REMOVE_AUDIO"] }, newsreel]⟩

theorem mem_builtin_of_newsreels (he : e ∈ newsreels.features.entries) :
    e ∈ FeatureCatalog.builtin.entries := by
  rcases List.mem_pair.mp he with rfl | rfl <;> simp [FeatureCatalog.builtin]

theorem build_spares_newsreel :
    ∃ r, build newsreels {} = .ok r ∧
      r.resolve ⟨"Workflows/Newsreel/Epilogue", []⟩ = .ok (newsreel, [0]) ∧
      (∀ e ∈ r.catalogs.features.entries, ∀ given, Spares (e.feature.compile given)) ∧
      Spares (r.catalogs.plan newsreel [0] 0) ∧ Spares (r.catalogs.check newsreel) ∧
      Spares (r.catalogs.outputType (.workflow "Mute")) ∧
      Spares (r.catalogs.compileAt newsreel [0] {} 0) ∧
      ∃ p, r.catalogs.compileAt newsreel [0] {} 0 = .ok p ∧ p.size = 3 := by
  have hbuild : ∃ r, build newsreels {} = .ok r ∧
      r.resolve ⟨"Workflows/Newsreel/Epilogue", []⟩ = .ok (newsreel, [0]) := ⟨_, by cbv, by cbv⟩
  obtain ⟨r, hbuild, hresolve⟩ := hbuild
  obtain ⟨hselected, hdeclared, hcompiled, hbuiltin⟩ := build_spares hbuild
  obtain ⟨hplan, hcheck, -⟩ := hselected _ _ hresolve
  have hcatalogs : r.catalogs = newsreels := catalogs_of_build hbuild
  have hmem : newsreel ∈ r.catalogs.workflows.workflows := by
    rw [hcatalogs]
    exact List.mem_cons_of_mem _ List.mem_cons_self
  have hends := hdeclared newsreel hmem [0] _ rfl (.workflow "Mute") List.mem_cons_self
  have hfeatures : ∀ e ∈ r.catalogs.features.entries, ∀ given,
      Spares (e.feature.compile given) := by
    intro e he
    rw [hcatalogs] at he
    exact hbuiltin e (mem_builtin_of_newsreels he)
  have hpipeline : ∃ p, r.catalogs.compileAt newsreel [0] {} 0 = .ok p ∧ p.size = 3 := by
    rw [hcatalogs]
    exact ⟨_, by cbv, by cbv⟩
  exact ⟨r, hbuild, hresolve, hfeatures, hplan [0] 0, hcheck, hends.1,
    hcompiled hfeatures _ _ hresolve [0] {} 0, hpipeline⟩

end Registry

end MediaPipeline
