import MediaPipeline.Proofs.Plan.Success
/-!
# Pipeline — planned features compiled, and pipelines joined

A planned feature compiles where it has a configuration, given or by default,
and its feature takes it. The compiled step keeps the place and the intake,
so a compiled sequence has the places of the plan and feeds where the plan
does (`Compiled.isChain_iff`). One pipeline goes behind another where the two
join (`append_eq_ok`).
-/


namespace MediaPipeline

open Traversal

variable {configs : StepConfigs}

/-! ## One step -/

theorem StepConfigs.resolve_eq_ok {index : Nat} {e : Entry} {given : Configuration} :
    configs.resolve index e = .ok given ↔ (configs.get? index).or e.defaults = some given := by
  unfold resolve
  cases (configs.get? index).or e.defaults <;> simp [Configuration.blame]

namespace Planned

variable {q : Planned} {step : CompiledStep}

theorem compile_eq_ok :
    q.compile configs = .ok step ↔
      ∃ given command, (configs.get? q.index).or q.entry.defaults = some given ∧
        q.entry.feature.compile given = .ok command ∧
        step = ⟨q.index, q.entry.key, q.entry.name, q.entry.intake, q.entry.progress, command⟩ := by
  unfold Planned.compile Entry.instantiate
  simp only [bind_eq_ok, map_eq_ok, StepConfigs.resolve_eq_ok]
  constructor
  · rintro ⟨given, hgiven, _, ⟨command, hcommand, rfl⟩, h⟩
    cases h
    exact ⟨given, command, hgiven, hcommand, rfl⟩
  · rintro ⟨given, command, hgiven, hcommand, rfl⟩
    exact ⟨given, hgiven, _, ⟨command, hcommand, rfl⟩, rfl⟩

/-- A planned feature that does not compile lacks a configuration, or does not
take the one it has. -/
theorem compile_eq_error {e : Error} :
    q.compile configs = .error e ↔ configs.resolve q.index q.entry = .error e ∨
      ∃ given, configs.resolve q.index q.entry = .ok given ∧
        q.entry.feature.compile given = .error e := by
  unfold Planned.compile Entry.instantiate
  rw [bind_eq_error]
  refine or_congr_right (exists_congr fun given => and_congr_right fun _ => ?_)
  rw [bind_eq_error, map_eq_error]
  simp

theorem index_of_compile (h : q.compile configs = .ok step) : step.index = q.index := by
  obtain ⟨_, _, _, _, rfl⟩ := compile_eq_ok.mp h
  rfl

theorem intake_of_compile (h : q.compile configs = .ok step) : step.intake = q.entry.intake := by
  obtain ⟨_, _, _, _, rfl⟩ := compile_eq_ok.mp h
  rfl

end Planned

/-! ## All steps -/

/-- Planned features and the steps that they compile to, one by one. -/
def Compiled (configs : StepConfigs) : List Planned → List CompiledStep → Prop :=
  List.Forall₂ fun q step => q.compile configs = .ok step

namespace Compiled

variable {planned : List Planned} {steps : List CompiledStep}

theorem map_index (h : Compiled configs planned steps) :
    steps.map CompiledStep.index = planned.map Planned.index := by
  induction h with
  | nil => rfl
  | cons hstep _ ih => rw [List.map_cons, List.map_cons, ih, Planned.index_of_compile hstep]

theorem map_intake (h : Compiled configs planned steps) :
    steps.map CompiledStep.intake = planned.map fun q => q.entry.intake := by
  induction h with
  | nil => rfl
  | cons hstep _ ih => rw [List.map_cons, List.map_cons, ih, Planned.intake_of_compile hstep]

theorem map_key (h : Compiled configs planned steps) :
    planned.map (fun q => (q.index, q.entry.key)) =
      steps.map fun step => (step.index, step.compiled.key) := by
  induction h with
  | nil => rfl
  | cons hstep _ ih =>
    obtain ⟨_, _, _, _, rfl⟩ := Planned.compile_eq_ok.mp hstep
    rw [List.map_cons, List.map_cons, ih]

/-- **A compiled sequence feeds where the plan does.** -/
theorem isChain_iff (h : Compiled configs planned steps) :
    steps.IsChain CompiledStep.Feeds ↔ planned.IsChain Planned.Feeds := by
  have hsteps := List.isChain_map (R := Intake.Feeds) CompiledStep.intake (l := steps)
  have hplanned := List.isChain_map (R := Intake.Feeds) (fun q : Planned => q.entry.intake)
    (l := planned)
  rw [h.map_intake] at hsteps
  exact hsteps.symm.trans hplanned

theorem append {later : List Planned} {more : List CompiledStep}
    (h : Compiled configs planned steps) (hmore : Compiled configs later more) :
    Compiled configs (planned ++ later) (steps ++ more) :=
  List.rel_append h hmore

theorem append_inv {later : List Planned} (h : Compiled configs (planned ++ later) steps) :
    ∃ here more, steps = here ++ more ∧ Compiled configs planned here ∧
      Compiled configs later more := by
  refine ⟨steps.take planned.length, steps.drop planned.length,
    (List.take_append_drop _ _).symm, ?_, ?_⟩
  · have htake := List.forall₂_take planned.length h
    rwa [List.take_left] at htake
  · have hdrop := List.forall₂_drop planned.length h
    rwa [List.drop_left] at hdrop

theorem exists_of_mem {q : Planned} (h : Compiled configs planned steps) (hq : q ∈ planned) :
    ∃ step, q.compile configs = .ok step := by
  induction h with
  | nil => exact absurd hq List.not_mem_nil
  | cons hstep _ ih =>
    rcases List.mem_cons.mp hq with rfl | hq
    · exact ⟨_, hstep⟩
    · exact ih hq

theorem length_eq (h : Compiled configs planned steps) : planned.length = steps.length :=
  List.Forall₂.length_eq h

theorem ne_nil (h : Compiled configs planned steps) (hne : planned ≠ []) : steps ≠ [] := by
  rintro rfl
  exact hne (List.eq_nil_of_length_eq_zero h.length_eq)

end Compiled

/-- The pipeline of a workflow is its plan, compiled. -/
theorem Catalogs.compileAt_eq_ok {c : Catalogs} {w : Workflow} {path : List Nat} {base : Nat}
    {p : Pipeline} :
    c.compileAt w path configs base = .ok p ↔
      ∃ planned steps, c.plan w path base = .ok planned ∧ Compiled configs planned steps ∧
        p = ⟨w.name, steps⟩ := by
  unfold compileAt
  simp only [bind_eq_ok]
  constructor
  · rintro ⟨planned, hplan, steps, hsteps, h⟩
    cases h
    exact ⟨planned, steps, hplan, mapM_eq_ok.mp hsteps, rfl⟩
  · rintro ⟨planned, steps, hplan, hsteps, rfl⟩
    exact ⟨planned, hplan, steps, mapM_eq_ok.mpr hsteps, rfl⟩

/-- The pipeline of a workflow fails where there is no plan, or where one of the
planned features does not compile. -/
theorem Catalogs.fails_of_compileAt {c : Catalogs} {w : Workflow} {path : List Nat} {base : Nat}
    {e : Error} (h : c.compileAt w path configs base = .error e) :
    c.plan w path base = .error e ∨
      ∃ planned, c.plan w path base = .ok planned ∧ ∃ q ∈ planned, q.compile configs = .error e := by
  unfold compileAt at h
  rcases bind_eq_error.mp h with hplan | ⟨planned, hplan, h⟩
  · exact .inl hplan
  · refine .inr ⟨planned, hplan, ?_⟩
    rcases bind_eq_error.mp h with hsteps | ⟨steps, -, h⟩
    · exact exists_of_mapM_eq_error hsteps
    · cases h

/-! ## The inputs of a pipeline, and two pipelines -/

namespace Pipeline

variable {p q joined : Pipeline}

/-- The inputs of a pipeline are refused by its first step. -/
theorem checkInputs_eq_error {inputs : List MediaType} {e : Error} :
    p.checkInputs inputs = .error e ↔
      ∃ first why, p.steps.head? = some first ∧ first.intake.checkAll inputs = .error why ∧
        e = .unsupportedInput first.index first.name why.message := by
  unfold checkInputs
  cases p.steps with
  | nil => simp
  | cons first rest =>
    rw [List.head?_cons]
    constructor
    · intro h
      cases hcheck : first.intake.checkAll inputs with
      | ok _ => simp [hcheck] at h
      | error why =>
        simp only [hcheck, Except.error.injEq] at h
        exact ⟨first, why, rfl, hcheck, h.symm⟩
    · rintro ⟨first', why, hfirst, hcheck, rfl⟩
      cases hfirst
      simp only [hcheck]

theorem checkJoin_eq_ok :
    p.checkJoin q = .ok () ↔ Joins CompiledStep.Feeds p.steps q.steps := by
  unfold checkJoin Joins
  cases hlast : p.steps.getLast? with
  | none => simp
  | some last =>
    cases hfirst : q.steps.head? with
    | none => simp
    | some first =>
      have hfeeds : last.Feeds first ↔ first.intake.check last.outputType 1 = .ok () := Iff.rfl
      simp only [Option.mem_some_iff, forall_eq', hfeeds]
      cases first.intake.check last.outputType 1 <;> simp

/-- **One pipeline goes behind another where the two join.** -/
theorem append_eq_ok :
    p.append q = .ok joined ↔ Joins CompiledStep.Feeds p.steps q.steps ∧
      joined = ⟨if p.steps.isEmpty then q.name else p.joinedName q, p.steps ++ q.steps⟩ := by
  unfold append
  rw [map_eq_ok]
  constructor
  · rintro ⟨_, h, rfl⟩
    exact ⟨checkJoin_eq_ok.mp h, rfl⟩
  · rintro ⟨h, rfl⟩
    exact ⟨(), checkJoin_eq_ok.mpr h, rfl⟩

/-- Where it does not, its first step refuses what the last one before it
produces. -/
theorem append_eq_error {e : Error} (h : p.append q = .error e) :
    ∃ last first why, p.steps.getLast? = some last ∧ q.steps.head? = some first ∧
      first.intake.check last.outputType 1 = .error why ∧
      e = .incompatible (p.joinedName q) last.index first.index
        s!"{last.name} produces {last.outputType.name}: {why.message}" := by
  unfold append at h
  rw [map_eq_error] at h
  unfold checkJoin at h
  split at h
  · rename_i last first hlast hfirst
    cases hwhy : first.intake.check last.outputType 1 with
    | ok _ => simp [hwhy] at h
    | error why =>
      simp only [hwhy, Except.error.injEq] at h
      exact ⟨last, first, why, hlast, hfirst, hwhy, h.symm⟩
  · cases h

end Pipeline

end MediaPipeline
