import MediaPipeline.Proofs.Pipeline
import MediaPipeline.Registry.Lookup
/-!
# Registry/Compilation — selections compiled to one pipeline

`Plans` lists the plans of selections, each at the place where those before
it end. Compiling selections succeeds exactly where there are such plans,
every planned feature compiles, and the plans join (`compileAll_eq_ok`); the
steps are then the plans, compiled, one behind the other. The induction is
over the selections, with the pipeline that is there already
(`foldlM_extend_eq_ok`). Where there are plans and compiling fails all the
same, one of the planned features does not compile or two plans do not join
(`compileAll_eq_error`).
-/


namespace MediaPipeline

open Traversal

namespace Registry

variable {r : Registry} {base : Nat} {selections : List Selection} {plans : List (List Planned)}
variable {configs : StepConfigs} {p : Pipeline} {steps : List CompiledStep}

/-- The plans of selections, in order; each starts at the place behind all
those before it, the first one at `base`. -/
inductive Plans (r : Registry) : Nat → List Selection → List (List Planned) → Prop
  | nil {base : Nat} : Plans r base [] []
  | cons {base : Nat} {s : Selection} {rest : List Selection} {planned : List Planned}
      {plans : List (List Planned)} (hplan : r.plan s base = .ok planned)
      (hrest : Plans r (base + planned.length) rest plans) :
      Plans r base (s :: rest) (planned :: plans)

theorem plan_eq_ok {s : Selection} {planned : List Planned} :
    r.plan s base = .ok planned ↔
      ∃ target, r.resolve s = .ok target ∧ r.catalogs.plan target.1 target.2 base = .ok planned := by
  unfold plan
  rw [bind_eq_ok]

/-- The plan of a selection feeds and is not empty, as that of a workflow. -/
theorem isChain_of_plan {s : Selection} {planned : List Planned}
    (h : r.plan s base = .ok planned) : planned.IsChain Planned.Feeds := by
  obtain ⟨target, -, hplan⟩ := plan_eq_ok.mp h
  exact Catalogs.isChain_of_plan hplan

theorem ne_nil_of_plan {s : Selection} {planned : List Planned}
    (h : r.plan s base = .ok planned) : planned ≠ [] := by
  obtain ⟨target, -, hplan⟩ := plan_eq_ok.mp h
  exact Catalogs.ne_nil_of_plan hplan

/-! ## The plans of selections -/

namespace Plans

/-- **The places run through all plans.** -/
theorem map_index (h : r.Plans base selections plans) :
    plans.flatten.map Planned.index = List.range' base plans.flatten.length := by
  induction h with
  | nil => rfl
  | @cons base s rest planned plans hplan _ ih =>
    obtain ⟨target, -, hplan⟩ := plan_eq_ok.mp hplan
    rw [List.flatten_cons, List.map_append, ih, Catalogs.map_index_of_plan hplan, List.length_append]
    exact List.range'_append_1

theorem nil_notMem (h : r.Plans base selections plans) : [] ∉ plans := by
  induction h with
  | nil => exact List.not_mem_nil
  | cons hplan _ ih =>
    intro hmem
    rcases List.mem_cons.mp hmem with heq | hmem
    · exact ne_nil_of_plan hplan heq.symm
    · exact ih hmem

/-- All plans in a row feed where they join, since each of them feeds. -/
theorem isChain_flatten (h : r.Plans base selections plans) :
    plans.flatten.IsChain Planned.Feeds ↔ plans.IsChain (Joins Planned.Feeds) := by
  rw [List.isChain_flatten h.nil_notMem]
  refine ⟨And.right, fun hjoins => ⟨?_, hjoins⟩⟩
  clear hjoins
  induction h with
  | nil => exact fun _ hmem => absurd hmem List.not_mem_nil
  | cons hplan _ ih => exact List.forall_mem_cons.mpr ⟨isChain_of_plan hplan, ih⟩

theorem resolves (h : r.Plans base selections plans) :
    ∀ s ∈ selections, ∃ target, r.resolve s = .ok target := by
  induction h with
  | nil => exact fun _ hmem => absurd hmem List.not_mem_nil
  | cons hplan _ ih =>
    obtain ⟨target, htarget, -⟩ := plan_eq_ok.mp hplan
    exact List.forall_mem_cons.mpr ⟨⟨target, htarget⟩, ih⟩

theorem eq_nil_iff (h : r.Plans base selections plans) : plans = [] ↔ selections = [] := by
  cases h <;> simp

/-- Nothing is planned only where nothing is selected. -/
theorem flatten_eq_nil_iff (h : r.Plans base selections plans) :
    plans.flatten = [] ↔ selections = [] := by
  rw [← h.eq_nil_iff, List.flatten_eq_nil_iff]
  constructor
  · intro hall
    by_contra hne
    obtain ⟨planned, hmem⟩ := List.exists_mem_of_ne_nil plans hne
    exact h.nil_notMem (hall planned hmem ▸ hmem)
  · rintro rfl planned hmem
    exact absurd hmem List.not_mem_nil

end Plans

/-! ## One selection more -/

/-- A selection goes behind a pipeline where it has a plan at the place behind
it, the plan compiles, and the two join. -/
theorem extend_eq_ok {s : Selection} :
    (∃ q, r.extend configs p s = .ok q ∧ q.steps = steps) ↔
      ∃ planned more, r.plan s p.size = .ok planned ∧ Compiled configs planned more ∧
        Joins CompiledStep.Feeds p.steps more ∧ steps = p.steps ++ more := by
  unfold extend
  simp only [bind_eq_ok, Catalogs.compileAt_eq_ok, plan_eq_ok, Pipeline.append_eq_ok]
  constructor
  · rintro ⟨q, ⟨target, htarget, next, ⟨planned, more, hplan, hmore, rfl⟩, hjoin, rfl⟩, rfl⟩
    exact ⟨planned, more, ⟨target, htarget, hplan⟩, hmore, hjoin, rfl⟩
  · rintro ⟨planned, more, ⟨target, htarget, hplan⟩, hmore, hjoin, rfl⟩
    exact ⟨_, ⟨target, htarget, _, ⟨planned, more, hplan, hmore, rfl⟩, hjoin, rfl⟩, rfl⟩

/-- A compiled plan takes as many places as it has features. -/
theorem size_of_steps {next : Pipeline} {planned : List Planned} {here : List CompiledStep}
    (hhere : Compiled configs planned here) (hsteps : next.steps = p.steps ++ here) :
    next.size = p.size + planned.length := by
  rw [Pipeline.size, hsteps, List.length_append, ← hhere.length_eq]
  rfl

/-- **All selections, behind the pipeline that is there already.** -/
theorem foldlM_extend_eq_ok (hp : p.steps.IsChain CompiledStep.Feeds) :
    (∃ q, selections.foldlM (r.extend configs) p = .ok q ∧ q.steps = steps) ↔
      ∃ plans more, r.Plans p.size selections plans ∧ Compiled configs plans.flatten more ∧
        steps = p.steps ++ more ∧ steps.IsChain CompiledStep.Feeds := by
  induction selections generalizing p with
  | nil =>
    constructor
    · rintro ⟨q, h, rfl⟩
      cases h
      exact ⟨[], [], .nil, .nil, (List.append_nil _).symm, hp⟩
    · rintro ⟨plans, more, hplans, hmore, rfl, hchain⟩
      cases hplans
      cases hmore
      exact ⟨p, rfl, (List.append_nil _).symm⟩
  | cons s rest ih =>
    rw [List.foldlM_cons]
    simp only [bind_eq_ok]
    constructor
    · rintro ⟨q, ⟨next, hnext, hq⟩, hsteps⟩
      obtain ⟨planned, here, hplan, hhere, hjoin, hnexts⟩ := extend_eq_ok.mp ⟨next, hnext, rfl⟩
      have hchain : here.IsChain CompiledStep.Feeds :=
        hhere.isChain_iff.mpr (isChain_of_plan hplan)
      have hnextchain : next.steps.IsChain CompiledStep.Feeds := by
        rw [hnexts]
        exact hp.append hchain hjoin
      obtain ⟨plans, more, hplans, hmore, rfl, hall⟩ := (ih hnextchain).mp ⟨q, hq, hsteps⟩
      -- the plans behind start where the steps so far end
      rw [size_of_steps hhere hnexts] at hplans
      refine ⟨planned :: plans, here ++ more, .cons hplan hplans, hhere.append hmore, ?_, hall⟩
      rw [hnexts, List.append_assoc]
    · rintro ⟨plans, more, hplans, hmore, rfl, hchain⟩
      cases hplans with
      | @cons _ _ _ planned plans hplan hrest =>
        obtain ⟨here, later, rfl, hhere, hlater⟩ := Compiled.append_inv hmore
        have hne : here ≠ [] := hhere.ne_nil (ne_nil_of_plan hplan)
        obtain ⟨-, -, hjoin⟩ := List.isChain_append.mp hchain
        obtain ⟨next, hnext, hnexts⟩ := extend_eq_ok.mpr
          ⟨planned, here, hplan, hhere, (Joins.append_iff hne).mp hjoin, rfl⟩
        have hall : p.steps ++ (here ++ later) = next.steps ++ later := by
          rw [hnexts, List.append_assoc]
        have hnextchain : next.steps.IsChain CompiledStep.Feeds := by
          rw [hall] at hchain
          exact hchain.left_of_append
        obtain ⟨q, hq, hqs⟩ := (ih hnextchain).mpr
          ⟨plans, later, size_of_steps hhere hnexts ▸ hrest, hlater, hall, hchain⟩
        exact ⟨q, ⟨next, hnext, hq⟩, hqs⟩

/-! ## All selections -/

/-- Compiling is the fold over the selections, where it leaves any steps. -/
theorem compileAll_iff_foldlM :
    (∃ p, r.compileAll selections configs = .ok p ∧ p.steps = steps) ↔
      steps ≠ [] ∧
        ∃ p, selections.foldlM (r.extend configs) (.empty "") = .ok p ∧ p.steps = steps := by
  unfold compileAll
  simp only [bind_eq_ok]
  constructor
  · rintro ⟨p, ⟨q, hq, hp⟩, rfl⟩
    split at hp
    · cases hp
    · rename_i hne
      cases hp
      exact ⟨fun hnil => hne (List.isEmpty_iff.mpr hnil), p, hq, rfl⟩
  · rintro ⟨hne, p, hp, rfl⟩
    exact ⟨p, ⟨p, hp, if_neg fun h => hne (List.isEmpty_iff.mp h)⟩, rfl⟩

/-- **What selections compile to.** -/
theorem compileAll_eq_ok :
    (∃ p, r.compileAll selections configs = .ok p ∧ p.steps = steps) ↔
      selections ≠ [] ∧ ∃ plans, r.Plans 0 selections plans ∧
        Compiled configs plans.flatten steps ∧ plans.IsChain (Joins Planned.Feeds) := by
  have hstart : (Pipeline.empty "").steps.IsChain CompiledStep.Feeds := .nil
  rw [compileAll_iff_foldlM, foldlM_extend_eq_ok hstart]
  constructor
  · rintro ⟨hne, plans, more, hplans, hmore, hsteps, hchain⟩
    rw [show steps = more from hsteps] at hne hchain ⊢
    refine ⟨fun hnil => hne ?_, plans, hplans, hmore,
      hplans.isChain_flatten.mp (hmore.isChain_iff.mp hchain)⟩
    rw [hplans.flatten_eq_nil_iff.mpr hnil] at hmore
    exact List.eq_nil_of_length_eq_zero hmore.length_eq.symm
  · rintro ⟨hne, plans, hplans, hsteps, hjoins⟩
    refine ⟨hsteps.ne_nil fun hnil => hne (hplans.flatten_eq_nil_iff.mp hnil), plans, steps,
      hplans, hsteps, rfl, ?_⟩
    exact hsteps.isChain_iff.mpr (hplans.isChain_flatten.mpr hjoins)

/-- The places of a compiled pipeline count up from zero. -/
theorem map_index_of_compileAll (h : r.compileAll selections configs = .ok p) :
    p.steps.map CompiledStep.index = List.range p.size := by
  obtain ⟨-, plans, hplans, hsteps, -⟩ := compileAll_eq_ok.mp ⟨p, h, rfl⟩
  rw [hsteps.map_index, hplans.map_index, hsteps.length_eq, List.range_eq_range']
  rfl

theorem index_of_compileAll {i : Nat} {step : CompiledStep}
    (h : r.compileAll selections configs = .ok p) (hstep : p.steps[i]? = some step) :
    step.index = i := by
  have hindex : (p.steps.map CompiledStep.index)[i]? = some step.index := by
    rw [List.getElem?_map, hstep]
    rfl
  rw [map_index_of_compileAll h] at hindex
  obtain ⟨hi, heq⟩ := List.getElem?_eq_some_iff.mp hindex
  rw [← heq, List.getElem_range]

theorem ne_nil_of_compileAll (h : r.compileAll selections configs = .ok p) : p.steps ≠ [] :=
  (compileAll_iff_foldlM.mp ⟨p, h, rfl⟩).1

/-- **When selections compile, and to what.** There is at least one selection
and each resolves and has a plan at the place behind those before it; every
planned feature has a configuration, given or by default, that it takes; and
where two plans meet, the second takes what the first produces. The steps are
then the plans one behind the other, at places that count up from zero, and
each takes what the one before it produces. -/
theorem compileAll_isOk_iff (r : Registry) (selections : List Selection)
    (configs : StepConfigs) :
    ((∃ p, r.compileAll selections configs = .ok p) ↔
        selections ≠ [] ∧ (∀ s ∈ selections, ∃ target, r.resolve s = .ok target) ∧
          ∃ plans, r.Plans 0 selections plans ∧
            (∀ q ∈ plans.flatten, ∃ given command,
              (configs.get? q.index).or q.entry.defaults = some given ∧
                q.entry.feature.compile given = .ok command) ∧
            plans.IsChain (Joins Planned.Feeds)) ∧
      ∀ p, r.compileAll selections configs = .ok p →
        ∃ plans, r.Plans 0 selections plans ∧ Compiled configs plans.flatten p.steps ∧
          (∀ (i : Nat) (step : CompiledStep), p.steps[i]? = some step → step.index = i) ∧
          p.steps ≠ [] ∧ p.steps.IsChain CompiledStep.Feeds := by
  refine ⟨⟨?_, ?_⟩, ?_⟩
  · rintro ⟨p, h⟩
    obtain ⟨hne, plans, hplans, hsteps, hjoins⟩ := compileAll_eq_ok.mp ⟨p, h, rfl⟩
    refine ⟨hne, hplans.resolves, plans, hplans, fun q hq => ?_, hjoins⟩
    obtain ⟨step, hstep⟩ := hsteps.exists_of_mem hq
    obtain ⟨given, command, hgiven, hcommand, -⟩ := Planned.compile_eq_ok.mp hstep
    exact ⟨given, command, hgiven, hcommand⟩
  · rintro ⟨hne, -, plans, hplans, hcompile, hjoins⟩
    obtain ⟨steps, hsteps⟩ : ∃ steps, Compiled configs plans.flatten steps := by
      refine exists_forall₂ fun q hq => ?_
      obtain ⟨given, command, hgiven, hcommand⟩ := hcompile q hq
      exact ⟨_, Planned.compile_eq_ok.mpr ⟨given, command, hgiven, hcommand, rfl⟩⟩
    obtain ⟨p, h, -⟩ := compileAll_eq_ok.mpr ⟨hne, plans, hplans, hsteps, hjoins⟩
    exact ⟨p, h⟩
  · intro p h
    obtain ⟨-, plans, hplans, hsteps, hjoins⟩ := compileAll_eq_ok.mp ⟨p, h, rfl⟩
    exact ⟨plans, hplans, hsteps, fun i step hstep => index_of_compileAll h hstep,
      ne_nil_of_compileAll h, hsteps.isChain_iff.mpr (hplans.isChain_flatten.mpr hjoins)⟩

/-! ## Selections that are planned and do not compile -/

/-- Why planned steps do not make a pipeline: one of them does not compile, or
where two pipelines meet, the second does not take what the first produces. -/
inductive Obstacle (configs : StepConfigs) (planned : List Planned) (e : Error) : Prop
  | step {q : Planned} (hq : q ∈ planned) (hcompile : q.compile configs = .error e)
  | join {joined : String} {producer consumer : Nat} {reason : String}
      (heq : e = .incompatible joined producer consumer reason)

theorem Obstacle.of_subset {planned all : List Planned} {e : Error}
    (h : Obstacle configs planned e) (hsub : planned ⊆ all) : Obstacle configs all e := by
  cases h with
  | step hq hcompile => exact .step (hsub hq) hcompile
  | join heq => exact .join heq

theorem extend_eq_error {s : Selection} {planned : List Planned} {e : Error}
    (hplan : r.plan s p.size = .ok planned) (h : r.extend configs p s = .error e) :
    Obstacle configs planned e := by
  obtain ⟨target, htarget, hplan⟩ := plan_eq_ok.mp hplan
  unfold extend at h
  rw [htarget] at h
  rcases bind_eq_error.mp h with herror | ⟨_, heq, h⟩
  · cases herror
  · cases heq
    rcases bind_eq_error.mp h with hcompile | ⟨next, -, happend⟩
    · rcases Catalogs.fails_of_compileAt hcompile with hnone | ⟨_, hsame, q, hq, hstep⟩
      · cases hnone.symm.trans hplan
      · cases hsame.symm.trans hplan
        exact .step hq hstep
    · obtain ⟨last, first, why, -, -, -, heq⟩ := Pipeline.append_eq_error happend
      exact .join heq

/-- A fold that fails fails at one of the selections, whose plan is in its
place. The induction is over the selections, as that of
`foldlM_extend_eq_ok`. -/
theorem foldlM_extend_eq_error {e : Error} (hplans : r.Plans p.size selections plans)
    (h : selections.foldlM (r.extend configs) p = .error e) :
    Obstacle configs plans.flatten e := by
  induction selections generalizing p plans with
  | nil => cases h
  | cons s rest ih =>
    cases hplans with
    | @cons _ _ _ planned plans hplan hrest =>
      rw [List.foldlM_cons] at h
      rw [List.flatten_cons]
      rcases bind_eq_error.mp h with hextend | ⟨next, hnext, h⟩
      · exact (extend_eq_error hplan hextend).of_subset (List.subset_append_left _ _)
      · obtain ⟨planned', here, hplan', hhere, -, hsteps⟩ := extend_eq_ok.mp ⟨next, hnext, rfl⟩
        cases hplan'.symm.trans hplan
        rw [← size_of_steps hhere hsteps] at hrest
        exact (ih hrest h).of_subset (List.subset_append_right _ _)

/-- **Selections that are planned fail to compile only by an obstacle** among
their planned steps. -/
theorem compileAll_eq_error {e : Error} (hne : selections ≠ [])
    (hplans : r.Plans 0 selections plans) (h : r.compileAll selections configs = .error e) :
    Obstacle configs plans.flatten e := by
  unfold compileAll at h
  rcases bind_eq_error.mp h with hfold | ⟨p, hfold, h⟩
  · exact foldlM_extend_eq_error (p := .empty "") hplans hfold
  · -- what the selections were folded to has steps, since every plan has
    exfalso
    obtain ⟨plans', more, hplans', hmore, hsteps, -⟩ :=
      (foldlM_extend_eq_ok (p := .empty "") .nil).mp ⟨p, hfold, rfl⟩
    have hmorene : more ≠ [] :=
      hmore.ne_nil fun hnil => hne (hplans'.flatten_eq_nil_iff.mp hnil)
    have hpne : p.isEmpty ≠ true := by
      rw [Pipeline.isEmpty, hsteps]
      exact fun hempty => hmorene (List.isEmpty_iff.mp hempty)
    rw [if_neg hpne] at h
    cases h

end Registry

end MediaPipeline
