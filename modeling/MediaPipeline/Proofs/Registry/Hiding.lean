import MediaPipeline.Proofs.Registry.Disabling
import MediaPipeline.Proofs.Registry.Listing
import MediaPipeline.Proofs.Registry.Resolution
/-!
# Registry/Hiding — what is left out of the tree is not listed, and nothing else

Settings that hide more features and disable more workflows make a tree of the
same catalogs wherever the others do. It is the other tree with some nodes
taken out of the two categories, each with all that is below it
(`exists_rows_of_more`). A trail through it leads to the same command in the
other one, where only the places of nodes in the categories differ
(`exists_leads_of_category`), and those places are not looked at. So whatever
can be selected in the smaller tree is resolved, planned and compiled alike in
both, also where steps refer to features that are hidden and workflows that
are disabled (`build_thins`).
-/


namespace MediaPipeline

open Traversal

namespace Registry

variable {c : Catalogs} {settings settings' : Settings.Catalog} {r r' : Registry}
variable {n : Node} {e : Entry} {features flows rest : List Node} {s : Selection}
variable {target : Workflow × List Nat}

/-! ## Rows without some of their nodes -/

/-- Whether settings list the node of a feature that is not hidden in itself:
its one step is not a feature that they hide. -/
def listsFeature (settings : Settings.Catalog) (n : Node) : Bool :=
  settings.hiddenFeatures.all fun key => n.steps ≠ [.feature key]

/-- Whether settings list the node of a workflow. -/
def listsWorkflow (settings : Settings.Catalog) (n : Node) : Bool :=
  !settings.disabledWorkflows.contains n.name

theorem listsFeature_of_featureNode (h : featureNode e = .ok n) :
    listsFeature settings n = !settings.hiddenFeatures.contains e.key := by
  obtain ⟨-, rfl⟩ := featureNode_eq_ok.mp h
  rw [Bool.eq_iff_iff]
  simp only [listsFeature, List.all_eq_true, decide_eq_true_eq, ne_eq, List.cons.injEq, and_true,
    Step.feature.injEq, Bool.not_eq_true', List.contains_eq_mem, decide_eq_false_iff_not]
  exact ⟨fun hall hmem => hall e.key hmem rfl, fun hnot key hkey heq => hnot (heq ▸ hkey)⟩

/-- Settings that leave out more are no hindrance to a tree. -/
theorem Buildable.of_more (h : Buildable c settings)
    (hhidden : settings.hiddenFeatures ⊆ settings'.hiddenFeatures)
    (hdisabled : settings.disabledWorkflows ⊆ settings'.disabledWorkflows) :
    Buildable c settings' where
  keys := h.keys
  names := h.names
  workflowNames := h.workflowNames
  features e he hshown := h.features e he (by
    simp only [isHidden, Bool.or_eq_false_iff, List.contains_eq_mem, decide_eq_false_iff_not]
      at hshown ⊢
    exact ⟨hshown.1, fun hmem => hshown.2 (hhidden hmem)⟩)
  references := h.references
  formed w hw hlisted := h.formed w hw fun hmem => hlisted (hdisabled hmem)
  custom := h.custom

/-- What is not in the longer list is not in the shorter one. -/
theorem not_contains_and {names more : List String} (hsub : names ⊆ more) (name : String) :
    (!more.contains name && !names.contains name) = !more.contains name := by
  by_cases hmem : name ∈ names
  · simp [hmem, hsub hmem]
  · simp [hmem]

/-- **The tree that lists less** has the rows of the other one without the
nodes that are left out now, and the same commands beside the categories. -/
theorem exists_rows_of_more (h : build c settings = .ok r)
    (hhidden : settings.hiddenFeatures ⊆ settings'.hiddenFeatures)
    (hdisabled : settings.disabledWorkflows ⊆ settings'.disabledWorkflows)
    (h' : build c settings' = .ok r') :
    ∃ features flows custom, customRunNodes c = .ok custom ∧
      r.roots = featuresNode features :: workflowsNode flows :: (custom ++ [clearNode]) ∧
      r'.roots = featuresNode (features.filter (listsFeature settings')) ::
        workflowsNode (flows.filter (listsWorkflow settings')) :: (custom ++ [clearNode]) := by
  obtain ⟨features, flows, custom, hroots, hfeatures, -, hflows, -, hcustom⟩ :=
    exists_rows_of_build h
  obtain ⟨features', flows', custom', hroots', hfeatures', -, hflows', -, hcustom'⟩ :=
    exists_rows_of_build h'
  obtain rfl : custom = custom' := Except.ok.inj (hcustom.symm.trans hcustom')
  -- what is listed now is listed before, so leaving out can be done in two goes
  have hkeys : (c.features.entries.filter fun e => !isHidden settings' e) =
      (c.features.entries.filter fun e => !isHidden settings e).filter
        fun e => !settings'.hiddenFeatures.contains e.key := by
    rw [List.filter_filter]
    refine List.filter_congr fun e _ => ?_
    rw [isHidden, isHidden, Bool.not_or, Bool.not_or, Bool.and_left_comm,
      not_contains_and hhidden]
  have hnames : (c.workflows.workflows.filter
        fun w => !settings'.disabledWorkflows.contains w.name) =
      (c.workflows.workflows.filter
        fun w => !settings.disabledWorkflows.contains w.name).filter
          fun w => !settings'.disabledWorkflows.contains w.name := by
    rw [List.filter_filter]
    exact List.filter_congr fun w _ => (not_contains_and hdisabled w.name).symm
  rw [hkeys] at hfeatures'
  rw [hnames] at hflows'
  have hfiltered : features' = features.filter (listsFeature settings') :=
    hfeatures'.unique (hfeatures.filter fun _ _ => listsFeature_of_featureNode)
  have hfiltered' : flows' = flows.filter (listsWorkflow settings') :=
    hflows'.unique (hflows.filter fun w n hn => by rw [listsWorkflow, name_of_workflowNode hn])
  subst hfiltered hfiltered'
  exact ⟨features, flows, custom, hcustom, hroots, hroots'⟩

/-! ## Trails through the two trees -/

/-- A trail whose first command does not compile belongs to the first one
behind it that does; the place of that one does not matter. -/
theorem owner?_cons_of_category {i : Nat} {trail : List (Nat × Node)}
    (hkind : n.kind.isCompilable = false) : owner? ((i, n) :: trail) = owner? trail := by
  rw [owner?, hkind, if_neg Bool.false_ne_true]

theorem owner?_cons_place {i : Nat} (j : Nat) {trail : List (Nat × Node)} :
    owner? ((i, n) :: trail) = owner? ((j, n) :: trail) := by
  rw [owner?, owner?]

/-- **A trail through a category that has fewer nodes below it** leads to the
same command as one through the category with all of them. -/
theorem exists_leads_of_category {row : List Node} {i j : Nat} {category category' last : Node}
    {trail : List (Nat × Node)} (hrow : row[i]? = some category)
    (hname : category.name = category'.name) (hkind : category.kind.isCompilable = false)
    (hkind' : category'.kind.isCompilable = false) (hchild : category'.child ⊆ category.child)
    (hleads : Node.Leads category'.child trail)
    (hlast : ((i, category') :: trail).getLast? = some (j, last))
    (hcompilable : last.kind.isCompilable = true) :
    ∃ found k, Node.Leads row found ∧
      Node.trailNames found = Node.trailNames ((i, category') :: trail) ∧
      found.getLast? = some (k, last) ∧ owner? found = owner? ((i, category') :: trail) := by
  cases hleads with
  | stop =>
    -- the trail ends in the category, which does not compile
    cases hlast
    rw [hkind'] at hcompilable
    cases hcompilable
  | @down _ place m more hm hbelow =>
    obtain ⟨place', hm'⟩ := List.mem_iff_getElem?.mp (hchild (List.mem_of_getElem? hm))
    have hend : ∃ k, ((place', m) :: more).getLast? = some (k, last) := by
      rw [List.getLast?_cons_cons] at hlast
      cases more with
      | nil =>
        cases hlast
        exact ⟨place', rfl⟩
      | cons e more => exact ⟨j, hlast⟩
    obtain ⟨k, hend⟩ := hend
    refine ⟨(i, category) :: (place', m) :: more, k, .down hrow (.down hm' hbelow), ?_, hend, ?_⟩
    · exact congrArg (· :: m.name :: Node.trailNames more) hname
    · rw [owner?_cons_of_category hkind, owner?_cons_of_category hkind', owner?_cons_place]

/-- **What is resolved in the tree that lists less is resolved alike in the
other one.** -/
theorem resolve_of_rows {features' flows' : List Node} (hdistinct : Node.Distinct r.roots)
    (hdistinct' : Node.Distinct r'.roots)
    (hroots : r.roots = featuresNode features :: workflowsNode flows :: rest)
    (hroots' : r'.roots = featuresNode features' :: workflowsNode flows' :: rest)
    (hfeatures : features' ⊆ features) (hflows : flows' ⊆ flows)
    (h : r'.resolve s = .ok target) : r.resolve s = .ok target := by
  obtain ⟨trail, i, last, n, path, hleads, hnames, hlast, hkind, howner, htarget⟩ :=
    (resolve_eq_ok hdistinct').mp h
  have hsame : ∃ found k, Node.Leads r.roots found ∧
      Node.trailNames found = Node.trailNames trail ∧ found.getLast? = some (k, last) ∧
      owner? found = owner? trail := by
    cases hleads with
    | stop => cases hlast
    | @down _ place m more hm hbelow =>
      have hfirst : r.roots[0]? = some (featuresNode features) := by rw [hroots]; rfl
      have hsecond : r.roots[1]? = some (workflowsNode flows) := by rw [hroots]; rfl
      rw [hroots'] at hm
      match place with
      | 0 =>
        cases hm
        exact exists_leads_of_category hfirst rfl rfl rfl hfeatures hbelow hlast hkind
      | 1 =>
        cases hm
        exact exists_leads_of_category hsecond rfl rfl rfl hflows hbelow hlast hkind
      | place + 2 =>
        -- beside the categories the roots are the same
        exact ⟨_, i, .down (by rw [hroots]; exact hm) hbelow, rfl, hlast, rfl⟩
  obtain ⟨found, k, hfound, hfoundNames, hfoundLast, hfoundOwner⟩ := hsame
  exact (resolve_eq_ok hdistinct).mpr ⟨found, k, last, n, path, hfound, hfoundNames.trans hnames,
    hfoundLast, hkind, hfoundOwner.trans howner, htarget⟩

/-! ## What the trees list -/

/-- The listing of a tree by its rows: each category with all that is below it,
and the rest. -/
def listing (features flows rest : List Node) : List (String × Node) :=
  (featuresName, featuresNode features) :: Node.pathsIn featuresName features ++
    ((workflowsName, workflowsNode flows) :: Node.pathsIn workflowsName flows ++
      Node.pathsIn "" rest)

theorem paths_eq_listing
    (hroots : r.roots = featuresNode features :: workflowsNode flows :: rest) :
    r.paths = listing features flows rest := by
  unfold paths
  rw [hroots, Node.pathsIn, Node.pathsIn, Node.pathsBelow_eq, Node.pathsBelow_eq]
  rfl

/-- A command at the root is found by its name, where that is plain. -/
theorem get?_root {i : Nat} (hdistinct : Node.Distinct r.roots) (hn : r.roots[i]? = some n)
    (hplain : Selection.Plain n.name) : r.get? n.name = some n :=
  (get?_eq_some hdistinct).mpr ⟨[(i, n)], i, .down hn .stop, rfl, hplain.segments_eq.symm⟩

/-- The command for verbatim arguments, where its feature is in the catalog. -/
theorem customRunNodes_of_isSome {custom : List Node} (h : customRunNodes c = .ok custom)
    (hkey : (c.features.get? customRunKey).isSome) :
    ∃ n, custom = [n] ∧ n.name = customRunName ∧ n.steps = [.feature customRunKey] ∧
      n.kind.isCompilable = true := by
  obtain ⟨e, he⟩ := Option.isSome_iff_exists.mp hkey
  have hname : e.key = customRunKey := by simpa using List.find?_some he
  unfold customRunNodes at h
  rw [he] at h
  obtain ⟨m, hm, rfl⟩ := map_eq_ok.mp h
  have hkind := (toWorkflow_of_featureNode hm).2
  obtain ⟨-, rfl⟩ := featureNode_eq_ok.mp hm
  exact ⟨_, rfl, rfl, by rw [hname], hkind⟩

/-! ## More settings -/

/-- **What a tree is to one that leaves out less.** The catalogs are the same.
The listing is that of the other tree, in its order, without the features that
are hidden now and without the workflows that are disabled now and all that is
below them. Selections that can be resolved in it are resolved, planned and
compiled as in the other one. And the command for verbatim arguments is found
in both, whatever is hidden. -/
structure Thins (settings : Settings.Catalog) (r r' : Registry) : Prop where
  catalogs : r'.catalogs = r.catalogs
  listed : ∃ features flows rest,
    r.roots = featuresNode features :: workflowsNode flows :: rest ∧
    r.paths = listing features flows rest ∧
    r'.paths = listing (features.filter (listsFeature settings))
      (flows.filter (listsWorkflow settings)) rest
  selections : ∀ selections : List Selection,
    (∀ s ∈ selections, ∃ target, r'.resolve s = .ok target) →
      (∀ s ∈ selections, r'.resolve s = r.resolve s ∧
        ∀ base, r'.plan s base = r.plan s base) ∧
      ∀ configs, r'.compileAll selections configs = r.compileAll selections configs
  verbatim : (r.catalogs.features.get? customRunKey).isSome →
    ∃ n, r.get? customRunName = some n ∧ r'.get? customRunName = some n ∧
      n.steps = [.feature customRunKey] ∧ n.kind.isCompilable = true

/-- Selections that are resolved alike over the same catalogs are planned and
compiled alike. -/
theorem compileAll_congr {selections : List Selection} (hcatalogs : r'.catalogs = r.catalogs)
    (hresolve : ∀ s ∈ selections, r'.resolve s = r.resolve s) (configs : StepConfigs) :
    r'.compileAll selections configs = r.compileAll selections configs := by
  have hextend : ∀ s ∈ selections, ∀ p, r'.extend configs p s = r.extend configs p s := by
    intro s hs p
    unfold extend
    rw [hresolve s hs, hcatalogs]
  unfold compileAll
  rw [foldlM_congr hextend]

/-- **Leaving out more makes a tree of the same catalogs,** which lists less
and is otherwise the same. -/
theorem build_thins (h : build c settings = .ok r)
    (hhidden : settings.hiddenFeatures ⊆ settings'.hiddenFeatures)
    (hdisabled : settings.disabledWorkflows ⊆ settings'.disabledWorkflows) :
    ∃ r', build c settings' = .ok r' ∧ r.Thins settings' r' := by
  obtain ⟨r', h'⟩ := exists_build_iff.mpr
    ((exists_build_iff.mp ⟨r, h⟩).of_more hhidden hdisabled)
  have hcatalogs : r'.catalogs = r.catalogs := by
    rw [catalogs_of_build h, catalogs_of_build h']
  have hdistinct := distinct_of_build h
  have hdistinct' := distinct_of_build h'
  obtain ⟨features, flows, custom, hcustom, hroots, hroots'⟩ :=
    exists_rows_of_more h hhidden hdisabled h'
  refine ⟨r', h', hcatalogs,
    ⟨features, flows, _, hroots, paths_eq_listing hroots, paths_eq_listing hroots'⟩, ?_, ?_⟩
  · intro selections hselections
    have hresolve : ∀ s ∈ selections, r'.resolve s = r.resolve s := by
      intro s hs
      obtain ⟨target, htarget⟩ := hselections s hs
      rw [htarget, resolve_of_rows hdistinct hdistinct' hroots hroots'
        List.filter_sublist.subset List.filter_sublist.subset htarget]
    refine ⟨fun s hs => ⟨hresolve s hs, fun base => ?_⟩, compileAll_congr hcatalogs hresolve⟩
    unfold plan
    rw [hresolve s hs, hcatalogs]
  · intro hkey
    rw [catalogs_of_build h] at hkey
    obtain ⟨n, rfl, hname, hsteps, hkind⟩ := customRunNodes_of_isSome hcustom hkey
    have hplain : Selection.Plain n.name := by
      rw [hname]
      decide
    have hthird : r.roots[2]? = some n := by rw [hroots]; rfl
    have hthird' : r'.roots[2]? = some n := by rw [hroots']; rfl
    rw [← hname]
    exact ⟨n, get?_root hdistinct hthird hplain, get?_root hdistinct' hthird' hplain, hsteps,
      hkind⟩

/-- Settings that leave out a feature and a workflow. -/
def bareBones : Settings.Catalog := ⟨["GRAYSCALE"], ["Mute"]⟩

theorem build_thins_newsreels :
    ∃ r r', build newsreels {} = .ok r ∧ [] ⊆ bareBones.hiddenFeatures ∧
      [] ⊆ bareBones.disabledWorkflows ∧ build newsreels bareBones = .ok r' ∧
      r.Thins bareBones r' ∧ r'.get? "Features/Grayscale" = none ∧
      r'.resolve ⟨"Workflows/Newsreel", []⟩ = .ok (newsreel, []) ∧
      r'.plan ⟨"Workflows/Newsreel", []⟩ 0 = r.plan ⟨"Workflows/Newsreel", []⟩ 0 := by
  have hbuild : ∃ r, build newsreels {} = .ok r := ⟨_, by cbv⟩
  obtain ⟨r, hbuild⟩ := hbuild
  have hbare : ∃ r', build newsreels bareBones = .ok r' ∧ r'.get? "Features/Grayscale" = none ∧
      r'.resolve ⟨"Workflows/Newsreel", []⟩ = .ok (newsreel, []) := ⟨_, by cbv, by cbv, by cbv⟩
  obtain ⟨r', hbare, hget, hresolve⟩ := hbare
  have hhidden : [] ⊆ bareBones.hiddenFeatures := List.nil_subset _
  have hdisabled : [] ⊆ bareBones.disabledWorkflows := List.nil_subset _
  obtain ⟨built, hbuilt, hthins⟩ := build_thins hbuild hhidden hdisabled
  obtain rfl : built = r' := Except.ok.inj (hbuilt.symm.trans hbare)
  obtain ⟨hsame, -⟩ := hthins.selections [⟨"Workflows/Newsreel", []⟩]
    fun s hs => ⟨_, List.mem_singleton.mp hs ▸ hresolve⟩
  exact ⟨r, built, hbuild, hhidden, hdisabled, hbare, hthins, hget, hresolve,
    (hsame _ List.mem_cons_self).2 0⟩

end Registry

end MediaPipeline
