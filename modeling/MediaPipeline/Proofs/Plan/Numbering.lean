import MediaPipeline.Proofs.Plan.Layout
/-!
# Plan/Numbering — places given one by one

A plan numbers its features when all of them are there. They may as well be
numbered one by one: `planOnto` walks through the same steps with the list of
what is planned so far, and gives each feature the place that is next in it.
Features behind others are numbered from where those end (`behind_append`), so
both ways lead to the same plan, and fail alike (`plan_eq_planOnto`).
-/


namespace MediaPipeline

namespace Catalogs

variable {c : Catalogs} {w : Workflow} {path : List Nat} {base i : Nat} {out : List Planned}
variable {way : List String} {workflow : String} {before : Option Step} {steps : List Step}

/-! ## Features behind what is planned -/

/-- What is planned so far, with features behind it at the places that follow. -/
def behind (base : Nat) (out : List Planned) (entries : List Entry) : List Planned :=
  out ++ numbered (base + out.length) entries

theorem behind_nil (base : Nat) (out : List Planned) : behind base out [] = out :=
  List.append_nil out

/-- **Features behind others are numbered from where those end.** -/
theorem behind_append (base : Nat) (out : List Planned) (here later : List Entry) :
    behind base out (here ++ later) = behind base (behind base out here) later := by
  have hplaces : base + (behind base out here).length = base + out.length + here.length := by
    unfold behind
    rw [List.length_append, length_numbered, Nat.add_assoc]
  have hlater : numbered (base + out.length) (here ++ later) =
      numbered (base + out.length) here ++ numbered (base + out.length + here.length) later := by
    unfold numbered
    rw [List.mapIdx_append]
    simp only [Nat.add_assoc, Nat.add_comm here.length]
  rw [behind, hlater, ← hplaces, ← List.append_assoc]
  rfl

/-! ## The walk -/

/-- A chain of steps of a workflow, walked through with what is planned so far:
every feature is put behind it, at the next place. -/
def expandOnto (c : Catalogs) (base : Nat) (way : List String) (workflow : String)
    (before : Option Step) (i : Nat) : List Step → List Planned → Except Error (List Planned)
  | [], out => .ok out
  | step :: rest, out => do
    c.checkBefore workflow before i step
    let out ←
      match step with
      | .feature key => (c.feature key).map fun e => out ++ [⟨base + out.length, e⟩]
      | .workflow name =>
        match _hget : c.workflows.get? name with
        | none => unknownWorkflow name
        | some w =>
          if _hway : w.name ∈ way then cycle way w.name
          else if w.steps = [] then noSteps w.name
          else c.expandOnto base (way ++ [w.name]) w.name none 0 w.steps out
    c.expandOnto base way workflow (some step) (i + 1) rest out
termination_by steps _ => (c.workflows.unvisited way, steps.length)
decreasing_by
  · exact Prod.Lex.right _ (Nat.lt_succ_self _)
  · exact Prod.Lex.left _ _
      (WorkflowCatalog.unvisited_append_lt (WorkflowCatalog.mem_of_get? _hget) _hway)

/-- A workflow behind what is planned so far, without its children. -/
def leavesOnto (c : Catalogs) (base : Nat) (w : Workflow) (out : List Planned) :
    Except Error (List Planned) :=
  if w.steps = [] then noSteps w.name
  else c.expandOnto base [w.name] w.name none 0 w.steps out

/-- The descendants on a path of child indices, one after the other behind what
is planned so far. -/
def continuationOnto (c : Catalogs) (base : Nat) (parent : Workflow) :
    List Nat → List Planned → Except Error (List Planned)
  | [], out => .ok out
  | n :: path, out =>
    match parent.child[n]? with
    | none => .error (.notFound "child workflow" s!"{parent.name} #{n}")
    | some child => do
      c.checkContinuation parent child
      let out ← c.leavesOnto base child out
      c.continuationOnto base child path out

/-- The plan of a workflow with the descendants on a path behind it, walked
through from an empty list. -/
def planOnto (c : Catalogs) (w : Workflow) (path : List Nat) (base : Nat) :
    Except Error (List Planned) := do
  let out ← c.leavesOnto base w []
  c.continuationOnto base w path out

/-! ## The same plan -/

/-- Two parts that are put behind what is planned, one after the other. -/
theorem map_behind_append (base : Nat) (out : List Planned) (x y : Except Error (List Entry)) :
    (do let here ← x; let later ← y; .ok (here ++ later)).map (behind base out) =
      x.map (behind base out) >>= fun out => y.map (behind base out) := by
  cases x with
  | error e => rfl
  | ok here =>
    cases y with
    | error e => rfl
    | ok later => exact congrArg Except.ok (behind_append base out here later)

/-- **The walk puts the expansion behind what is planned.** The induction is that
of the expansion, for every list that is planned before it. -/
theorem expandOnto_eq :
    c.expandOnto base way workflow before i steps out =
      (c.expand way workflow before i steps).map (behind base out) := by
  induction way, workflow, before, i, steps using expand.induct c generalizing out with
  | case1 way workflow before i =>
    rw [expandOnto, expand]
    exact congrArg Except.ok (behind_nil base out).symm
  | case2 way workflow before i step rest ihrest ihbelow =>
    rw [expandOnto, expand_cons]
    cases c.checkBefore workflow before i step with
    | error e => rfl
    | ok _ =>
      have hsplit := map_behind_append base out (c.expand way workflow none 0 [step])
        (c.expand way workflow (some step) (i + 1) rest)
      refine Eq.trans ?_ hsplit.symm
      simp only [← ihrest]
      cases step with
      | feature key =>
        rw [expand_feature]
        dsimp only
        cases c.feature key <;> rfl
      | workflow name =>
        dsimp only [bind, Except.bind]
        split
        · rename_i hnone
          rw [expand_unknown hnone]
          rfl
        · rename_i v hv
          rw [expand_workflow hv]
          split
          · rfl
          · rename_i hway
            split
            · rfl
            · rw [ihbelow name v hv hway]

theorem leavesOnto_eq : c.leavesOnto base w out = (c.leaves w).map (behind base out) := by
  unfold leavesOnto leaves
  split
  · rfl
  · exact expandOnto_eq

theorem continuationOnto_eq :
    c.continuationOnto base w path out = (c.continuation w path).map (behind base out) := by
  induction path generalizing w out with
  | nil =>
    rw [continuationOnto, continuation]
    exact congrArg Except.ok (behind_nil base out).symm
  | cons n path ih =>
    rw [continuationOnto, continuation]
    cases w.child[n]? with
    | none => rfl
    | some child =>
      dsimp only
      cases c.checkContinuation w child with
      | error e => rfl
      | ok _ =>
        refine Eq.trans ?_ (map_behind_append base out (c.leaves child)
          (c.continuation child path)).symm
        simp only [← ih, ← leavesOnto_eq]
        rfl

/-- **Numbered one by one or when all are there, the features of a plan have the
same places,** and the plan fails alike. -/
theorem plan_eq_planOnto (c : Catalogs) (w : Workflow) (path : List Nat) (base : Nat) :
    c.plan w path base = c.planOnto w path base := by
  have hempty : behind base [] = numbered base := rfl
  have hparts := map_behind_append base [] (c.leaves w) (c.continuation w path)
  unfold planOnto
  simp only [continuationOnto_eq, leavesOnto_eq]
  rw [← hparts, hempty]
  unfold plan
  cases c.leaves w with
  | error e => rfl
  | ok own => cases c.continuation w path <;> rfl

end Catalogs

end MediaPipeline
