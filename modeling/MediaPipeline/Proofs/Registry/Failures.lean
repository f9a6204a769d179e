import MediaPipeline.Proofs.Plan.Layout
import MediaPipeline.Proofs.Registry.Compilation
/-!
# Registry/Failures — how the way from a choice to a pipeline may fail

Looking up, planning and compiling have failures of their own, and all of them
blame what was chosen, what it was configured with, or the catalogs
(`Error.BlamesChoice`). Nothing else comes from the registry itself: where a
command can be resolved at all there is one on its trail that compiles
(`exists_owner`), so the search for it does not come back with nothing. A
failure of any other kind comes from outside, from a feature that answers its
configuration with it (`compileAll_fails`).
-/


namespace MediaPipeline

open Traversal

/-- The failures that blame a choice: what was selected, how it was configured,
or the catalogs that it was selected from. -/
def Error.BlamesChoice : Error → Prop
  | .configuration _ _ => True
  | .incompatible _ _ _ _ => True
  | .registry _ => True
  | .notFound _ _ => True
  | .validation _ => True
  | _ => False

theorem StepConfigs.resolve_blames (configs : StepConfigs) (index : Nat) (entry : Entry) :
    FailsBy Error.BlamesChoice (configs.resolve index entry) := by
  unfold StepConfigs.resolve
  split
  · exact FailsBy.ok _
  · exact FailsBy.error trivial

/-! ## Planning -/

namespace Catalogs

variable (c : Catalogs)

theorem feature_blames (key : String) : FailsBy Error.BlamesChoice (c.feature key) := by
  unfold feature
  cases c.features.get? key with
  | some e => exact FailsBy.ok e
  | none => exact FailsBy.error trivial

theorem edge_blames (e : End) (way : List String) (step : Step) :
    FailsBy Error.BlamesChoice (c.edge e way step) := by
  induction way, step using edge.induct c e with
  | case1 way key =>
    rw [edge]
    exact c.feature_blames key
  | case2 way name hway =>
    rw [edge, dif_pos hway]
    exact FailsBy.error trivial
  | case3 way name hway hget =>
    rw [edge, dif_neg hway]
    split
    · exact FailsBy.error trivial
    · rename_i w hw
      cases hw.symm.trans hget
  | case4 way name hway w hget hend =>
    rw [edge, dif_neg hway]
    split
    · exact FailsBy.error trivial
    · rename_i u hu
      obtain rfl := Option.some.inj (hu.symm.trans hget)
      rw [hend]
      exact FailsBy.error trivial
  | case5 way name hway w hget step hend ih =>
    rw [edge_workflow hway hget hend]
    exact ih

theorem checkPair_blames (workflow : String) (i : Nat) (producer consumer : Step) :
    FailsBy Error.BlamesChoice (c.checkPair workflow i producer consumer) := by
  refine (c.edge_blames .last [] producer).map.bind fun produced _ => ?_
  refine (c.edge_blames .first [] consumer).map.bind fun intake _ => ?_
  cases intake.check produced 1 with
  | ok _ => exact FailsBy.ok _
  | error why => exact FailsBy.error trivial

/-- The induction is that of the expansion. -/
theorem expand_blames (way : List String) (workflow : String) (before : Option Step) (i : Nat)
    (steps : List Step) : FailsBy Error.BlamesChoice (c.expand way workflow before i steps) := by
  induction way, workflow, before, i, steps using expand.induct c with
  | case1 way workflow before i =>
    rw [expand]
    exact FailsBy.ok _
  | case2 way workflow before i step rest ihrest ihbelow =>
    have hcheck : FailsBy Error.BlamesChoice (c.checkBefore workflow before i step) := by
      cases before with
      | none => exact FailsBy.ok _
      | some producer => exact c.checkPair_blames workflow (i - 1) producer step
    have hhere : FailsBy Error.BlamesChoice (c.expand way workflow none 0 [step]) := by
      cases step with
      | feature key =>
        rw [expand_feature]
        exact (c.feature_blames key).map
      | workflow name =>
        cases hget : c.workflows.get? name with
        | none =>
          rw [expand_unknown hget]
          exact FailsBy.error trivial
        | some w =>
          rw [expand_workflow hget]
          split
          · exact FailsBy.error trivial
          · rename_i hway
            split
            · exact FailsBy.error trivial
            · exact ihbelow name w hget hway
    rw [expand_cons]
    exact hcheck.bind fun _ _ => hhere.bind fun _ _ => ihrest.bind fun _ _ => FailsBy.ok _

theorem leaves_blames (w : Workflow) : FailsBy Error.BlamesChoice (c.leaves w) := by
  unfold leaves
  split
  · exact FailsBy.error trivial
  · exact c.expand_blames [w.name] w.name none 0 w.steps

theorem checkContinuation_blames (parent child : Workflow) :
    FailsBy Error.BlamesChoice (c.checkContinuation parent child) := by
  unfold checkContinuation
  split
  · exact c.checkPair_blames parent.name _ _ _
  · exact FailsBy.ok _

theorem continuation_blames (w : Workflow) (path : List Nat) :
    FailsBy Error.BlamesChoice (c.continuation w path) := by
  induction path generalizing w with
  | nil => exact FailsBy.ok _
  | cons n path ih =>
    rw [continuation]
    cases w.child[n]? with
    | none => exact FailsBy.error trivial
    | some v =>
      refine (c.checkContinuation_blames w v).bind fun _ _ => ?_
      exact (c.leaves_blames v).bind fun _ _ => (ih v).bind fun _ _ => FailsBy.ok _

/-- **A plan fails only by what was chosen,** over any catalogs. -/
theorem plan_blames (w : Workflow) (path : List Nat) (base : Nat) :
    FailsBy Error.BlamesChoice (c.plan w path base) :=
  (c.leaves_blames w).bind fun _ _ => (c.continuation_blames w path).bind fun _ _ => FailsBy.ok _

end Catalogs

/-! ## Looking up -/

namespace Registry

variable {r : Registry}

/-- **A trail on which a command compiles has an owner,** the first such
command. -/
theorem exists_owner {trail : List (Nat × Node)} {e : Nat × Node} (he : e ∈ trail)
    (hkind : e.2.kind.isCompilable = true) :
    ∃ i owner path, owner? trail = some (owner, path) ∧ (i, owner) ∈ trail ∧
      owner.kind.isCompilable = true := by
  induction trail with
  | nil => exact absurd he List.not_mem_nil
  | cons first rest ih =>
    rw [owner?]
    split
    · rename_i hfirst
      exact ⟨first.1, first.2, _, rfl, List.mem_cons_self, hfirst⟩
    · rename_i hfirst
      rcases List.mem_cons.mp he with rfl | he
      · exact absurd hkind hfirst
      · obtain ⟨i, owner, path, howner, hmem, hcompiles⟩ := ih he
        exact ⟨i, owner, path, howner, List.mem_cons_of_mem first hmem, hcompiles⟩

theorem resolve_blames (r : Registry) (s : Selection) :
    FailsBy Error.BlamesChoice (r.resolve s) := by
  unfold resolve
  cases r.trail? s.path with
  | none => exact FailsBy.error trivial
  | some trail =>
    dsimp only
    cases hlast : trail.getLast? with
    | none => exact FailsBy.error trivial
    | some target =>
      dsimp only
      split
      · rename_i hkind
        -- the command that is looked for is itself one that compiles
        obtain ⟨i, owner, path, howner, -⟩ := exists_owner (List.mem_of_getLast? hlast) hkind
        rw [howner]
        exact FailsBy.ok _
      · exact FailsBy.error trivial

theorem plan_blames (r : Registry) (s : Selection) (base : Nat) :
    FailsBy Error.BlamesChoice (r.plan s base) :=
  (r.resolve_blames s).bind fun target _ => r.catalogs.plan_blames target.1 target.2 base

/-- What is planned are features of the catalog. -/
theorem entry_mem_of_plan {s : Selection} {base : Nat} {planned : List Planned} {q : Planned}
    (h : r.plan s base = .ok planned) (hq : q ∈ planned) :
    q.entry ∈ r.catalogs.features.entries := by
  obtain ⟨target, -, hplan⟩ := plan_eq_ok.mp h
  exact Catalogs.entry_mem_of_plan hplan hq

/-! ## Compiling -/

/-- A feature that is planned for one of the selections answers the
configuration that it has with a failure. -/
def Answers (r : Registry) (selections : List Selection) (configs : StepConfigs)
    (e : Error) : Prop :=
  ∃ s ∈ selections, ∃ base planned, r.plan s base = .ok planned ∧ ∃ q ∈ planned, ∃ given,
    configs.resolve q.index q.entry = .ok given ∧ q.entry.feature.compile given = .error e

/-- Such a feature is in the catalog. -/
theorem Answers.exists_entry {selections : List Selection} {configs : StepConfigs} {e : Error}
    (h : r.Answers selections configs e) :
    ∃ entry ∈ r.catalogs.features.entries, ∃ given, entry.feature.compile given = .error e := by
  obtain ⟨s, -, base, planned, hplan, q, hq, given, -, hanswer⟩ := h
  exact ⟨q.entry, entry_mem_of_plan hplan hq, given, hanswer⟩

/-- **Compiling fails by what was chosen or by the answer of a feature.** -/
theorem compileAll_fails (r : Registry) (selections : List Selection) (configs : StepConfigs) :
    FailsBy (fun e => e.BlamesChoice ∨ r.Answers selections configs e)
      (r.compileAll selections configs) := by
  have hextend : ∀ s ∈ selections, ∀ p : Pipeline,
      FailsBy (fun e => e.BlamesChoice ∨ r.Answers selections configs e)
        (r.extend configs p s) := by
    intro s hs p
    refine ((r.resolve_blames s).mono fun e => Or.inl).bind fun target htarget => ?_
    refine FailsBy.bind (fun e he => ?_) fun next _ => ?_
    · rcases Catalogs.fails_of_compileAt he with hplan | ⟨planned, hplan, q, hq, hcompile⟩
      · exact .inl (r.catalogs.plan_blames _ _ _ e hplan)
      · rcases Planned.compile_eq_error.mp hcompile with hmissing | ⟨given, hgiven, hanswer⟩
        · exact .inl (configs.resolve_blames q.index q.entry e hmissing)
        · exact .inr ⟨s, hs, p.size, planned, plan_eq_ok.mpr ⟨target, htarget, hplan⟩, q, hq,
            given, hgiven, hanswer⟩
    · intro e he
      obtain ⟨last, first, why, -, -, -, rfl⟩ := Pipeline.append_eq_error he
      exact .inl trivial
  refine (FailsBy.foldlM hextend).bind fun p _ => ?_
  split
  · exact FailsBy.error (.inl trivial)
  · exact FailsBy.ok p

end Registry

end MediaPipeline
