import MediaPipeline.Proofs.Registry.Tree
/-!
# Registry/Rows — what a row of nodes is made of

A row of nodes is made one node at a time: of the features, of the workflows,
of the children of a workflow. In each case the row has a node for every
element that is not left out, in order, and no two nodes under one name
(`foldlM_row`); where the elements have names of their own it can be made once
each of them has a node (`exists_row_iff`). The node of a workflow has such a
row below it (`workflowNode_eq_ok`), so it exists exactly where the workflow and
all its descendants have steps and no two children of one of them have the same
name (`exists_workflowNode_iff`).
-/


namespace MediaPipeline

open Traversal

/-- A workflow that has steps, whose children have names of their own, and
whose children are formed likewise. -/
inductive Workflow.Formed : Workflow → Prop
  | intro {w : Workflow} (steps : w.steps ≠ []) (names : (w.child.map (·.name)).Nodup)
      (below : ∀ v ∈ w.child, v.Formed) : w.Formed

namespace Registry

variable {c : Catalogs} {settings : Settings.Catalog} {r : Registry}
variable {nodes done : List Node} {n : Node} {e : Entry} {w : Workflow}

/-! ## Names that are unique -/

theorem firstRepeat?_eq_none {seen names : List String} :
    firstRepeat? seen names = none ↔ names.Nodup ∧ ∀ name ∈ names, name ∉ seen := by
  induction names generalizing seen with
  | nil => simp [firstRepeat?]
  | cons name rest ih =>
    rw [firstRepeat?, List.nodup_cons, List.forall_mem_cons]
    by_cases hseen : name ∈ seen
    · simp [hseen]
    · rw [if_neg hseen, ih]
      simp only [List.mem_cons, not_or]
      constructor
      · rintro ⟨hnodup, hall⟩
        exact ⟨⟨fun hmem => (hall name hmem).1 rfl, hnodup⟩, hseen, fun m hm => (hall m hm).2⟩
      · rintro ⟨⟨hname, hnodup⟩, -, hall⟩
        exact ⟨hnodup, fun m hm => ⟨fun heq => hname (heq ▸ hm), hall m hm⟩⟩

theorem checkKeys_eq_ok {keys : List String} : checkKeys keys = .ok () ↔ keys.Nodup := by
  have hnone : firstRepeat? [] keys = none ↔ keys.Nodup := by simp [firstRepeat?_eq_none]
  rw [← hnone]
  unfold checkKeys
  cases firstRepeat? [] keys <;> simp [fault]

theorem checkNames_eq_ok {scope : String} {names : List String} :
    checkNames scope names = .ok () ↔ names.Nodup := by
  have hnone : firstRepeat? [] names = none ↔ names.Nodup := by simp [firstRepeat?_eq_none]
  rw [← hnone]
  unfold checkNames
  cases firstRepeat? [] names <;> simp [fault]

/-! ## One row -/

/-- The nodes that are made of elements, one of each, in order. -/
def Made {α : Type} (make : α → Except Error Node) (l : List α) (nodes : List Node) : Prop :=
  List.Forall₂ (fun a n => make a = .ok n) l nodes

/-- What adds to a row puts the node of an element behind it, under a name of
its own, or leaves the row as it is where the element is not kept; either way
the element has to be sound. -/
def Adds {α : Type} (make : α → Except Error Node) (keep : α → Bool) (sound : α → Prop)
    (add : List Node → α → Except Error (List Node)) : Prop :=
  ∀ done a nodes, add done a = .ok nodes ↔ sound a ∧
    if keep a then ∃ n, make a = .ok n ∧ n.name ∉ done.map (·.name) ∧ nodes = done ++ [n]
    else nodes = done

/-- The names of a row with one more node are unique where those of the row
are and the node has another one. -/
theorem nodup_names_concat :
    ((done ++ [n]).map (·.name)).Nodup ↔
      (done.map (·.name)).Nodup ∧ n.name ∉ done.map (·.name) := by
  rw [List.map_append, List.map_singleton, List.nodup_append_comm, List.singleton_append,
    List.nodup_cons, and_comm]

section Row

variable {α : Type} {make : α → Except Error Node} {keep : α → Bool} {sound : α → Prop}
variable {add : List Node → α → Except Error (List Node)} {l : List α}

/-- **A row that is made one by one** behind nodes that are finished. The
induction is over what is still to be added, with the row so far. -/
theorem foldlM_row (hadd : Adds make keep sound add) (hdone : (done.map (·.name)).Nodup) :
    l.foldlM add done = .ok nodes ↔ (∀ a ∈ l, sound a) ∧
      ∃ new, Made make (l.filter keep) new ∧ ((done ++ new).map (·.name)).Nodup ∧
        nodes = done ++ new := by
  induction l generalizing done with
  | nil =>
    constructor
    · intro h
      cases h
      exact ⟨fun a ha => absurd ha List.not_mem_nil, [], .nil, by simpa using hdone, by simp⟩
    · rintro ⟨-, new, hnew, -, rfl⟩
      cases hnew
      rw [List.append_nil]
      rfl
  | cons a l ih =>
    rw [List.foldlM_cons, bind_eq_ok, List.forall_mem_cons]
    by_cases hkeep : keep a = true
    · rw [List.filter_cons_of_pos hkeep]
      constructor
      · rintro ⟨next, hnext, h⟩
        obtain ⟨hsound, hnext⟩ := (hadd done a next).mp hnext
        rw [if_pos hkeep] at hnext
        obtain ⟨n, hn, hname, rfl⟩ := hnext
        have hdone' := nodup_names_concat.mpr ⟨hdone, hname⟩
        obtain ⟨hall, new, hnew, hnodup, rfl⟩ := (ih hdone').mp h
        rw [← List.append_cons] at hnodup ⊢
        exact ⟨⟨hsound, hall⟩, n :: new, .cons hn hnew, hnodup, rfl⟩
      · -- what is unique in the whole row is so in the part that ends in the node
        rintro ⟨⟨hsound, hall⟩, new, hnew, hnodup, hnodes⟩
        obtain _ | ⟨hn, hrest⟩ := hnew
        rename_i n rest
        rw [List.append_cons] at hnodup hnodes
        have hdone' : ((done ++ [n]).map (·.name)).Nodup := by
          rw [List.map_append] at hnodup
          exact (List.nodup_append.mp hnodup).1
        refine ⟨done ++ [n], (hadd _ _ _).mpr ⟨hsound, ?_⟩,
          (ih hdone').mpr ⟨hall, rest, hrest, hnodup, hnodes⟩⟩
        rw [if_pos hkeep]
        exact ⟨n, hn, (nodup_names_concat.mp hdone').2, rfl⟩
    · rw [List.filter_cons_of_neg hkeep]
      constructor
      · rintro ⟨next, hnext, h⟩
        obtain ⟨hsound, hnext⟩ := (hadd done a next).mp hnext
        rw [if_neg hkeep] at hnext
        subst hnext
        obtain ⟨hall, hnew⟩ := (ih hdone).mp h
        exact ⟨⟨hsound, hall⟩, hnew⟩
      · rintro ⟨⟨hsound, hall⟩, hnew⟩
        refine ⟨done, (hadd _ _ _).mpr ⟨hsound, ?_⟩, (ih hdone).mpr ⟨hall, hnew⟩⟩
        rw [if_neg hkeep]

/-- A whole row. -/
theorem foldlM_row_nil (hadd : Adds make keep sound add) :
    l.foldlM add [] = .ok nodes ↔ (∀ a ∈ l, sound a) ∧ Made make (l.filter keep) nodes ∧
      (nodes.map (·.name)).Nodup := by
  have hstart : (([] : List Node).map (·.name)).Nodup := List.nodup_nil
  rw [foldlM_row hadd hstart]
  simp only [List.nil_append]
  constructor
  · rintro ⟨hall, new, hnew, hnodup, rfl⟩
    exact ⟨hall, hnew, hnodup⟩
  · rintro ⟨hall, hnew, hnodup⟩
    exact ⟨hall, nodes, hnew, hnodup, rfl⟩

/-- The nodes take their names from what they are made of. -/
theorem Made.map_name {name : α → String} (hmake : ∀ a n, make a = .ok n → n.name = name a)
    (h : Made make l nodes) : nodes.map (·.name) = l.map name := by
  induction h with
  | nil => rfl
  | cons hn _ ih => rw [List.map_cons, List.map_cons, ih, hmake _ _ hn]

theorem Made.exists_of_mem {a : α} (h : Made make l nodes) (ha : a ∈ l) :
    ∃ n, make a = .ok n := by
  induction h with
  | nil => exact absurd ha List.not_mem_nil
  | cons hn _ ih =>
    rcases List.mem_cons.mp ha with rfl | ha
    · exact ⟨_, hn⟩
    · exact ih ha

/-- The node of an element stands where the element does. -/
theorem Made.exists_getElem? {i : Nat} {a : α} (h : Made make l nodes) (ha : l[i]? = some a) :
    ∃ n, nodes[i]? = some n ∧ make a = .ok n := by
  induction h generalizing i with
  | nil => cases ha
  | cons hn _ ih =>
    cases i with
    | zero =>
      cases ha
      exact ⟨_, rfl, hn⟩
    | succ i => exact ih ha

theorem Made.of_mem (h : Made make l nodes) (hn : n ∈ nodes) : ∃ a ∈ l, make a = .ok n := by
  induction h with
  | nil => exact absurd hn List.not_mem_nil
  | cons hmake _ ih =>
    rcases List.mem_cons.mp hn with rfl | hn
    · exact ⟨_, List.mem_cons_self, hmake⟩
    · obtain ⟨a, ha, heq⟩ := ih hn
      exact ⟨a, List.mem_cons_of_mem _ ha, heq⟩

/-- Elements make one row. -/
theorem Made.unique {nodes' : List Node} (h : Made make l nodes) (h' : Made make l nodes') :
    nodes = nodes' := by
  induction h generalizing nodes' with
  | nil =>
    cases h'
    rfl
  | cons hn _ ih =>
    obtain _ | ⟨hn', hrest⟩ := h'
    rw [ih hrest, Except.ok.inj (hn.symm.trans hn')]

/-- **The row of some of the elements** is that of all of them without the
nodes of the others. -/
theorem Made.filter {kept : Node → Bool} (hkept : ∀ a n, make a = .ok n → kept n = keep a)
    (h : Made make l nodes) : Made make (l.filter keep) (nodes.filter kept) := by
  induction h with
  | nil => exact .nil
  | @cons a n _ _ hn _ ih =>
    by_cases hkeep : keep a = true
    · rw [List.filter_cons_of_pos hkeep, List.filter_cons_of_pos (by rwa [hkept a n hn])]
      exact .cons hn ih
    · rw [List.filter_cons_of_neg hkeep, List.filter_cons_of_neg (by rwa [hkept a n hn])]
      exact ih

/-- **When a row can be made:** where every element is sound and each that is
kept has a node, if the elements have names of their own. -/
theorem exists_row_iff {name : α → String} (hadd : Adds make keep sound add)
    (hmake : ∀ a n, make a = .ok n → n.name = name a) (hnames : (l.map name).Nodup) :
    (∃ nodes, l.foldlM add [] = .ok nodes) ↔
      (∀ a ∈ l, sound a) ∧ ∀ a ∈ l, keep a = true → ∃ n, make a = .ok n := by
  simp only [foldlM_row_nil hadd, exists_and_left]
  refine and_congr_right fun _ => ?_
  constructor
  · rintro ⟨nodes, hmade, -⟩ a ha hkeep
    exact hmade.exists_of_mem (List.mem_filter.mpr ⟨ha, hkeep⟩)
  · intro hall
    obtain ⟨nodes, hmade⟩ : ∃ nodes, Made make (l.filter keep) nodes := by
      refine exists_forall₂ fun a ha => ?_
      obtain ⟨ha, hkeep⟩ := List.mem_filter.mp ha
      exact hall a ha hkeep
    -- the nodes have the names of some of the elements
    refine ⟨nodes, hmade, ?_⟩
    rw [hmade.map_name hmake]
    exact hnames.sublist (List.filter_sublist.map _)

end Row

/-! ## The rows of a tree -/

/-- A feature has a node where it is configured in a form or has defaults, and
its node says what the entry says. -/
theorem featureNode_eq_ok :
    featureNode e = .ok n ↔ (e.ui.isSome ∨ e.defaults.isSome) ∧
      n = ⟨e.name, e.description, if e.ui.isSome then .interactive else .direct, e.ui, [],
        [.feature e.key]⟩ := by
  unfold featureNode
  by_cases hui : e.ui.isSome = true
  · simp only [hui, if_true, Except.ok.injEq, true_or, true_and]
    exact eq_comm
  · by_cases hdefaults : e.defaults.isSome = true
    · simp only [hui, hdefaults, Bool.false_eq_true, if_false, if_true, Except.ok.injEq, or_true,
        true_and]
      exact eq_comm
    · simp [hui, hdefaults, fault]

theorem name_of_featureNode (h : featureNode e = .ok n) : n.name = e.name := by
  obtain ⟨-, rfl⟩ := featureNode_eq_ok.mp h
  rfl

/-- A node that is made and put behind a row. -/
theorem make_push_eq_ok {x : Except Error Node} {scope : String} :
    (x >>= pushNode scope done) = .ok nodes ↔
      ∃ n, x = .ok n ∧ n.name ∉ done.map (·.name) ∧ nodes = done ++ [n] := by
  rw [bind_eq_ok]
  simp only [pushNode_eq_ok]

theorem adds_feature :
    Adds featureNode (fun e => !isHidden settings e) (fun _ => True) (addFeature settings) := by
  intro done e nodes
  unfold addFeature
  rw [true_and]
  by_cases hhidden : isHidden settings e = true
  · simp only [hhidden, if_true, Except.ok.injEq, Bool.not_true, Bool.false_eq_true, if_false]
    exact eq_comm
  · have hkept : (!isHidden settings e) = true := by simpa using hhidden
    rw [if_neg hhidden, if_pos hkept]
    exact make_push_eq_ok

theorem adds_workflow :
    Adds workflowNode (fun w => !settings.disabledWorkflows.contains w.name)
      (fun w => checkReferences c [w.name] w = .ok ()) (addWorkflow c settings) := by
  intro done w nodes
  unfold addWorkflow
  rw [then_eq_ok]
  refine and_congr_right fun _ => ?_
  by_cases hdisabled : settings.disabledWorkflows.contains w.name = true
  · simp only [hdisabled, if_true, Except.ok.injEq, Bool.not_true, Bool.false_eq_true, if_false]
    exact eq_comm
  · have hkept : (!settings.disabledWorkflows.contains w.name) = true := by simpa using hdisabled
    rw [if_neg hdisabled, if_pos hkept]
    exact make_push_eq_ok

/-- The children of a workflow make a row in the same way, and none is left
out. -/
theorem childNodes_eq_foldlM {scope : String} {ws : List Workflow} :
    childNodes scope done ws =
      ws.foldlM (fun done w => workflowNode w >>= pushNode scope done) done := by
  induction ws generalizing done with
  | nil =>
    rw [childNodes]
    rfl
  | cons w rest ih =>
    rw [childNodes, List.foldlM_cons, bind_assoc]
    simp only [ih]

theorem childNodes_eq_ok {scope : String} {ws : List Workflow} :
    childNodes scope [] ws = .ok nodes ↔
      Made workflowNode ws nodes ∧ (nodes.map (·.name)).Nodup := by
  have hadd : Adds workflowNode (fun _ => true) (fun _ => True)
      (fun done w => workflowNode w >>= pushNode scope done) := by
    intro done w nodes
    simpa using make_push_eq_ok
  rw [childNodes_eq_foldlM, foldlM_row_nil hadd]
  simp

/-- **The node of a workflow** has those of the children below it, under names
of their own. -/
theorem workflowNode_eq_ok :
    workflowNode w = .ok n ↔ w.steps ≠ [] ∧
      ∃ below, Made workflowNode w.child below ∧ (below.map (·.name)).Nodup ∧
        n = ⟨w.name, w.description, .workflow, none, below, w.steps⟩ := by
  cases w with
  | mk name description steps child =>
    rw [workflowNode]
    by_cases hsteps : steps = []
    · simp [hsteps, fault]
    · rw [if_neg hsteps, bind_eq_ok]
      simp only [childNodes_eq_ok, Except.ok.injEq, eq_comm (b := n), and_assoc]
      exact (and_iff_right hsteps).symm

theorem name_of_workflowNode (h : workflowNode w = .ok n) : n.name = w.name := by
  obtain ⟨-, below, -, -, rfl⟩ := workflowNode_eq_ok.mp h
  rfl

theorem map_name_of_made {ws : List Workflow} (h : Made workflowNode ws nodes) :
    nodes.map (·.name) = ws.map (·.name) :=
  h.map_name fun _ _ => name_of_workflowNode

/-- **A workflow has a node where it is formed.** The induction is over the
workflow and those below it. -/
theorem exists_workflowNode_iff (w : Workflow) : (∃ n, workflowNode w = .ok n) ↔ w.Formed := by
  induction w using Workflow.below_induction with
  | h w ih =>
    simp only [workflowNode_eq_ok]
    constructor
    · rintro ⟨n, hsteps, below, hbelow, hnames, -⟩
      rw [map_name_of_made hbelow] at hnames
      exact .intro hsteps hnames fun v hv => (ih v hv).mp (hbelow.exists_of_mem hv)
    · rintro ⟨hsteps, hnames, hformed⟩
      obtain ⟨below, hbelow⟩ : ∃ below, Made workflowNode w.child below :=
        exists_forall₂ fun v hv => (ih v hv).mpr (hformed v hv)
      rw [← map_name_of_made hbelow] at hnames
      exact ⟨_, hsteps, below, hbelow, hnames, rfl⟩

end Registry

end MediaPipeline
