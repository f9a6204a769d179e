import MediaPipeline.Proofs.Registry.Addressing
import MediaPipeline.Proofs.Registry.Compilation
import MediaPipeline.Proofs.Registry.Segments
/-!
# Registry/Resolution — what a selection comes down to

A selection names a command by its path and may go on by indices of children.
It is resolved along the trail that its path leads to: the first command on the
trail that compiles owns the pipeline, and the places of those behind it are
taken for indices of children (`resolve_eq_ok`). The nodes below that of a
workflow stand where its children do, at every depth
(`exists_leads_of_descendant?`), so a place in the tree and an index of a child
are the same. It makes no difference, then, where a path of children is split
into names in the path and indices behind it: every split is resolved to the
workflow as it is declared and the whole path of children (`resolve_split`).
-/


namespace MediaPipeline

/-- The names of a workflow and of the descendants on a path of child
indices, as far as there are any. -/
def Workflow.namesAlong (w : Workflow) : List Nat → List String
  | [] => [w.name]
  | i :: path =>
    w.name ::
      match w.child[i]? with
      | none => []
      | some v => v.namesAlong path

/-- Names with a slash between them. -/
def Selection.joined (names : List String) : String := "/".intercalate names

/-- **Plain names that are joined are the names that the path holds.** -/
theorem Selection.segments_joined {names : List String} (h : ∀ name ∈ names, Plain name) :
    segments (joined names) = names := by
  unfold joined
  induction names with
  | nil => cbv
  | cons name rest ih =>
    obtain ⟨hname, hrest⟩ := List.forall_mem_cons.mp h
    cases rest with
    | nil => rw [String.intercalate_singleton, hname.segments_eq]
    | cons next rest =>
      rw [String.intercalate_cons_cons, segments_append, hname.segments_eq, ih hrest]
      rfl

/-- The selection of a workflow that names the descendants on a path of
children, and goes on with further children by their indices. -/
def Workflow.selection (w : Workflow) (path rest : List Nat) : Selection :=
  ⟨Selection.joined (Registry.workflowsName :: w.namesAlong path), rest⟩

namespace Registry

variable {c : Catalogs} {settings : Settings.Catalog} {r : Registry}
variable {s : Selection} {target : Workflow × List Nat} {w : Workflow} {n : Node}
variable {path : List Nat}

/-- Where the names on the way are plain, the path of the selection holds
them, behind the name of the category. -/
theorem segments_selection (hplain : ∀ name ∈ w.namesAlong path, Selection.Plain name)
    (rest : List Nat) :
    Selection.segments (w.selection path rest).path = workflowsName :: w.namesAlong path :=
  Selection.segments_joined
    (List.forall_mem_cons.mpr ⟨(by decide : Selection.Plain workflowsName), hplain⟩)

/-! ## The trail of a selection -/

/-- **What a selection is resolved to.** The command that its path leads to
compiles, and the first one on the trail that does owns the pipeline. -/
theorem resolve_eq_ok (hroots : Node.Distinct r.roots) :
    r.resolve s = .ok target ↔ ∃ trail i last n path, Node.Leads r.roots trail ∧
      Node.trailNames trail = Selection.segments s.path ∧ trail.getLast? = some (i, last) ∧
      last.kind.isCompilable = true ∧ owner? trail = some (n, path) ∧
      target = (n.toWorkflow, path ++ s.child) := by
  unfold resolve
  constructor
  · intro h
    cases htrail : r.trail? s.path with
    | none => simp [htrail] at h
    | some trail =>
      obtain ⟨-, hleads, hnames⟩ := (trail?_eq_some hroots).mp htrail
      rw [htrail] at h
      dsimp only at h
      split at h
      · cases h
      · rename_i i last hlast
        split at h
        · rename_i hkind
          split at h
          · cases h
          · rename_i n path howner
            cases h
            exact ⟨trail, i, last, n, path, hleads, hnames, hlast, hkind, howner, rfl⟩
        · cases h
  · rintro ⟨trail, i, last, n, path, hleads, hnames, hlast, hkind, howner, rfl⟩
    have hne : Selection.segments s.path ≠ [] := by
      intro hnil
      rw [hnil] at hnames
      rw [List.map_eq_nil_iff.mp hnames] at hlast
      cases hlast
    have htrail := (trail?_eq_some hroots).mpr ⟨hne, hleads, hnames⟩
    simp only [htrail, hlast, hkind, howner, if_true]

/-- A selection is planned as what it is resolved to. -/
theorem plan_of_resolve (h : r.resolve s = .ok target) (base : Nat) :
    r.plan s base = r.catalogs.plan target.1 target.2 base := by
  unfold plan
  rw [h]
  rfl

/-- A selection alone compiles to the pipeline of what it is resolved to. -/
theorem compile_of_resolve (h : r.resolve s = .ok target) (configs : StepConfigs) :
    r.compile s configs = r.catalogs.compile target.1 target.2 configs := by
  have hextend : r.extend configs (.empty "") s =
      r.catalogs.compile target.1 target.2 configs >>= (Pipeline.empty "").append := by
    unfold extend
    rw [h]
    rfl
  unfold compile compileAll
  rw [List.foldlM_cons, hextend]
  cases hcompile : r.catalogs.compile target.1 target.2 configs with
  | error e => rfl
  | ok p =>
    obtain ⟨planned, steps, hplan, hsteps, rfl⟩ := Catalogs.compileAt_eq_ok.mp hcompile
    have hne : steps ≠ [] := hsteps.ne_nil (Catalogs.ne_nil_of_plan hplan)
    have hsome : (Pipeline.mk target.1.name steps).isEmpty = false := by
      simpa [Pipeline.isEmpty] using hne
    show (if (Pipeline.mk target.1.name steps).isEmpty then _ else _) = _
    rw [hsome]
    rfl

/-! ## Nodes along a path of children -/

/-- **The nodes below that of a workflow stand where its children do.** A path
of children leads down to nodes at the same places, under the names of the
children. The induction is on the path. -/
theorem exists_leads_of_descendant? (hn : workflowNode w = .ok n)
    (hpath : (w.descendant? path).isSome) :
    ∃ trail, Node.Leads n.child trail ∧ trail.map (·.1) = path ∧
      n.name :: Node.trailNames trail = w.namesAlong path ∧
      ∀ e ∈ trail, e.2.kind.isCompilable = true := by
  induction path generalizing w n with
  | nil =>
    refine ⟨[], .stop, rfl, ?_, fun e he => absurd he List.not_mem_nil⟩
    rw [name_of_workflowNode hn]
    rfl
  | cons i path ih =>
    obtain ⟨-, below, hbelow, -, rfl⟩ := workflowNode_eq_ok.mp hn
    rw [Workflow.descendant?] at hpath
    cases hchild : w.child[i]? with
    | none => simp [hchild] at hpath
    | some v =>
      rw [hchild] at hpath
      obtain ⟨m, hm, hmade⟩ := hbelow.exists_getElem? hchild
      obtain ⟨trail, hleads, hplaces, hnames, hkinds⟩ := ih hmade hpath
      refine ⟨(i, m) :: trail, .down hm hleads, by rw [List.map_cons, hplaces], ?_, ?_⟩
      · rw [Workflow.namesAlong, hchild]
        exact congrArg (w.name :: ·) hnames
      · exact List.forall_mem_cons.mpr ⟨(toWorkflow_of_workflowNode v m hmade).2, hkinds⟩

/-- A workflow that is not disabled has its node in the row of workflows. -/
theorem exists_node_of_listed (h : build c settings = .ok r) (hw : w ∈ c.workflows.workflows)
    (hlisted : w.name ∉ settings.disabledWorkflows) :
    ∃ (flows : List Node) (i : Nat) (n : Node),
      r.roots[1]? = some (workflowsNode flows) ∧ flows[i]? = some n ∧ workflowNode w = .ok n := by
  obtain ⟨features, flows, custom, hroots, -, -, hflows, -, -⟩ := exists_rows_of_build h
  have hkept : w ∈ c.workflows.workflows.filter
      fun w => !settings.disabledWorkflows.contains w.name :=
    List.mem_filter.mpr ⟨hw, by simpa using hlisted⟩
  obtain ⟨i, hi⟩ := List.mem_iff_getElem?.mp hkept
  obtain ⟨n, hn, hmade⟩ := hflows.exists_getElem? hi
  exact ⟨flows, i, n, by rw [hroots]; rfl, hn, hmade⟩

/-- **The address of a workflow and of descendants of it by their names.** What
is left of the way is taken over as it is. -/
theorem resolve_along (h : build c settings = .ok r) (hw : w ∈ c.workflows.workflows)
    (hlisted : w.name ∉ settings.disabledWorkflows) (hpath : (w.descendant? path).isSome)
    (hplain : ∀ name ∈ w.namesAlong path, Selection.Plain name) (rest : List Nat) :
    r.resolve (w.selection path rest) = .ok (w, path ++ rest) := by
  obtain ⟨flows, i, n, hcategory, hi, hn⟩ := exists_node_of_listed h hw hlisted
  obtain ⟨below, hleads, rfl, hnames, hkinds⟩ := exists_leads_of_descendant? hn hpath
  obtain ⟨hworkflow, hkind⟩ := toWorkflow_of_workflowNode w n hn
  have hcompilable : ∀ e ∈ (i, n) :: below, e.2.kind.isCompilable = true :=
    List.forall_mem_cons.mpr ⟨hkind, hkinds⟩
  obtain ⟨⟨j, last⟩, hlast⟩ : ∃ e, ((i, n) :: below).getLast? = some e :=
    ⟨_, List.getLast?_eq_some_getLast (List.cons_ne_nil _ _)⟩
  refine (resolve_eq_ok (distinct_of_build h)).mpr
    ⟨(1, workflowsNode flows) :: (i, n) :: below, j, last, n, below.map (·.1),
      .down hcategory (.down hi hleads), ?_, ?_, ?_, ?_, by rw [hworkflow]; rfl⟩
  · rw [segments_selection hplain, ← hnames]
    rfl
  · rw [List.getLast?_cons_cons, hlast]
  · exact hcompilable _ (List.mem_of_getLast? hlast)
  · -- the category does not compile, and the command behind it does
    have hcategory : (workflowsNode flows).kind.isCompilable = false := rfl
    rw [owner?, hcategory, if_neg Bool.false_ne_true, owner?, if_pos hkind]

/-! ## Where a path is split -/

/-- A path of children that leads somewhere leads somewhere at each point. -/
theorem isSome_descendant?_take (hpath : (w.descendant? path).isSome) (j : Nat) :
    (w.descendant? (path.take j)).isSome := by
  induction path generalizing w j with
  | nil => rwa [List.take_nil]
  | cons i path ih =>
    cases j with
    | zero => rfl
    | succ j =>
      rw [List.take_succ_cons, Workflow.descendant?]
      rw [Workflow.descendant?] at hpath
      cases hchild : w.child[i]? with
      | none => simp [hchild] at hpath
      | some v =>
        rw [hchild] at hpath
        exact ih hpath j

/-- And the names up to that point are among all its names. -/
theorem namesAlong_take_subset (w : Workflow) (path : List Nat) (j : Nat) :
    w.namesAlong (path.take j) ⊆ w.namesAlong path := by
  induction path generalizing w j with
  | nil =>
    rw [List.take_nil]
    exact List.Subset.refl _
  | cons i path ih =>
    cases j with
    | zero => exact List.cons_subset_cons w.name (List.nil_subset _)
    | succ j =>
      rw [List.take_succ_cons, Workflow.namesAlong, Workflow.namesAlong]
      cases w.child[i]? with
      | none => exact List.Subset.refl _
      | some v => exact List.cons_subset_cons w.name (ih v j)

/-- **A path of children may be split anywhere into names and indices.** For a
workflow that is listed and a path to a descendant of it, with plain names on
the way: the selection that names the first children in its path, and goes on
with the indices of the others and with any further ones, is resolved to the
workflow as it is declared and all of these indices. So it is planned and
compiled as they are, wherever the split is. -/
theorem resolve_split (h : build c settings = .ok r) (hw : w ∈ c.workflows.workflows)
    (hlisted : w.name ∉ settings.disabledWorkflows) (hpath : (w.descendant? path).isSome)
    (hplain : ∀ name ∈ w.namesAlong path, Selection.Plain name) (j : Nat) (more : List Nat) :
    r.resolve (w.selection (path.take j) (path.drop j ++ more)) = .ok (w, path ++ more) ∧
      (∀ base, r.plan (w.selection (path.take j) (path.drop j ++ more)) base =
        c.plan w (path ++ more) base) ∧
      ∀ configs, r.compile (w.selection (path.take j) (path.drop j ++ more)) configs =
        c.compile w (path ++ more) configs := by
  have hfront := isSome_descendant?_take hpath j
  have hnames := fun name hname => hplain name (namesAlong_take_subset w path j hname)
  have hresolve := resolve_along h hw hlisted hfront hnames (path.drop j ++ more)
  rw [← List.append_assoc, List.take_append_drop] at hresolve
  rw [← catalogs_of_build h]
  exact ⟨hresolve, plan_of_resolve hresolve, compile_of_resolve hresolve⟩

theorem resolve_split_newsreel :
    ∃ r, build newsreels {} = .ok r ∧ newsreel ∈ newsreels.workflows.workflows ∧
      (newsreel.descendant? [0]).isSome ∧
      (∀ name ∈ newsreel.namesAlong [0], Selection.Plain name) ∧
      newsreel.selection [0] [] = ⟨"Workflows/Newsreel/Epilogue", []⟩ ∧
      r.resolve (newsreel.selection [0] []) = .ok (newsreel, [0]) ∧
      r.plan (newsreel.selection [0] []) 2 = newsreels.plan newsreel [0] 2 := by
  have hbuild : ∃ r, build newsreels {} = .ok r := ⟨_, by cbv⟩
  obtain ⟨r, hbuild⟩ := hbuild
  have hmem : newsreel ∈ newsreels.workflows.workflows := List.mem_cons_of_mem _ List.mem_cons_self
  have hpath : (newsreel.descendant? [0]).isSome := rfl
  have hplain : ∀ name ∈ newsreel.namesAlong [0], Selection.Plain name := by decide
  obtain ⟨hresolve, hplan, -⟩ := resolve_split hbuild hmem List.not_mem_nil hpath hplain 1 []
  exact ⟨r, hbuild, hmem, hpath, hplain, by cbv, hresolve, hplan 2⟩

end Registry

end MediaPipeline
