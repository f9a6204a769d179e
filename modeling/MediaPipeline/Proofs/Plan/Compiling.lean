import MediaPipeline.Proofs.Pipeline
import MediaPipeline.Proofs.Plan.Layout
import MediaPipeline.Proofs.StepConfigs
/-!
# Plan/Compiling — a plan compiled step by step

Compiling a workflow plans it and compiles each planned feature against the
configuration for its place; nothing else happens. So what may fail is decided
in two stages. Without a plan there is no compilation, whatever the
configurations are. With one, each planned feature compiles or fails on its
own, and the failure of the first place is the one reported
(`compileAt_eq_first_error`): the places of a plan ascend (`pairwise_index_of_plan`),
so the first failure of the traversal is that of the smallest place. A feature
reads the configuration for its own place and no other (`Planned.compile_congr`),
and where places and configurations are moved together nothing else moves
(`Planned.compile_shift`, `plan_add`).
-/


namespace MediaPipeline

open Traversal

/-! ## Moving places -/

/-- A compiled step a number of places further back. -/
def CompiledStep.shift (d : Nat) (step : CompiledStep) : CompiledStep :=
  ⟨d + step.index, step.compiled⟩

/-- A pipeline with every step a number of places further back. -/
def Pipeline.shift (d : Nat) (p : Pipeline) : Pipeline := ⟨p.name, p.steps.map (·.shift d)⟩

/-- Configurations with each of them a number of places further back. -/
def StepConfigs.shift (d : Nat) (configs : StepConfigs) : StepConfigs where
  entries := configs.entries.map fun e => (d + e.1, e.2)
  ascending := List.pairwise_map.mpr (configs.ascending.imp fun h => Nat.add_lt_add_left h d)

theorem Table.get?_map_add {α : Type} (d : Nat) (t : List (Nat × α)) (k : Nat) :
    get? (t.map fun e => (d + e.1, e.2)) (d + k) = get? t k := by
  induction t with
  | nil => rfl
  | cons e rest ih => simp only [List.map_cons, get?_cons, ih, Nat.add_left_cancel_iff]

theorem StepConfigs.get?_shift (d : Nat) (configs : StepConfigs) (index : Nat) :
    (configs.shift d).get? (d + index) = configs.get? index :=
  Table.get?_map_add d configs.entries index

/-! ## One planned feature -/

namespace Planned

variable {configs others : StepConfigs} {q : Planned} {step : CompiledStep}

/-- **A planned feature reads the configuration for its own place,** and no
other. -/
theorem compile_congr (h : others.get? q.index = configs.get? q.index) :
    q.compile others = q.compile configs := by
  unfold Planned.compile StepConfigs.resolve
  rw [h]

/-- **It compiles to the same further back,** where its configuration is moved
with it. Only what a failure says of the place is different there. -/
theorem compile_shift (d : Nat) :
    (q.shift d).compile (configs.shift d) = .ok step ↔
      ∃ first, q.compile configs = .ok first ∧ step = first.shift d := by
  have hget : (configs.shift d).get? (q.shift d).index = configs.get? q.index :=
    configs.get?_shift d q.index
  simp only [compile_eq_ok, hget]
  constructor
  · rintro ⟨given, command, hgiven, hcommand, rfl⟩
    exact ⟨_, ⟨given, command, hgiven, hcommand, rfl⟩, rfl⟩
  · rintro ⟨_, ⟨given, command, hgiven, hcommand, rfl⟩, rfl⟩
    exact ⟨given, command, hgiven, hcommand, rfl⟩

/-- A planned feature compiles where it has a configuration and takes it. -/
theorem exists_compile_iff :
    (∃ step, q.compile configs = .ok step) ↔
      ∃ given command, configs.resolve q.index q.entry = .ok given ∧
        q.entry.feature.compile given = .ok command := by
  simp only [compile_eq_ok, StepConfigs.resolve_eq_ok]
  constructor
  · rintro ⟨_, given, command, hgiven, hcommand, -⟩
    exact ⟨given, command, hgiven, hcommand⟩
  · rintro ⟨given, command, hgiven, hcommand⟩
    exact ⟨_, given, command, hgiven, hcommand, rfl⟩

/-- The step that it compiles to has its place and is its entry, compiled
against the configuration for that place. -/
theorem placed_of_compile (h : q.compile configs = .ok step) :
    step.index = q.index ∧ ∃ given, configs.resolve q.index q.entry = .ok given ∧
      q.entry.instantiate given = .ok step.compiled := by
  obtain ⟨given, command, hgiven, hcommand, rfl⟩ := compile_eq_ok.mp h
  refine ⟨rfl, given, StepConfigs.resolve_eq_ok.mpr hgiven, ?_⟩
  unfold Entry.instantiate
  exact map_eq_ok.mpr ⟨command, hcommand, rfl⟩

end Planned

/-- **A plan compiles to the same further back.** -/
theorem Compiled.shift_iff {configs : StepConfigs} {planned : List Planned}
    {steps : List CompiledStep} (d : Nat) :
    Compiled (configs.shift d) (planned.map (·.shift d)) steps ↔
      ∃ first, Compiled configs planned first ∧ steps = first.map (·.shift d) := by
  induction planned generalizing steps with
  | nil =>
    constructor
    · rintro (_ | _)
      exact ⟨[], .nil, rfl⟩
    · rintro ⟨first, hfirst, rfl⟩
      cases hfirst
      exact .nil
  | cons q rest ih =>
    constructor
    · rintro (_ | ⟨hstep, hrest⟩)
      obtain ⟨step, hcompile, rfl⟩ := (Planned.compile_shift d).mp hstep
      obtain ⟨first, hfirst, rfl⟩ := ih.mp hrest
      exact ⟨step :: first, .cons hcompile hfirst, rfl⟩
    · rintro ⟨first, hfirst, rfl⟩
      cases hfirst with
      | @cons _ step _ first hcompile hfirst =>
        have hstep := (Planned.compile_shift d).mpr ⟨step, hcompile, rfl⟩
        exact .cons hstep (ih.mpr ⟨first, hfirst, rfl⟩)

namespace Catalogs

variable {c : Catalogs} {w : Workflow} {path : List Nat} {base : Nat}
variable {configs others : StepConfigs} {planned : List Planned} {e : Error} {p : Pipeline}

/-! ## The plan -/

theorem plan_add (c : Catalogs) (w : Workflow) (path : List Nat) (base d : Nat) :
    c.plan w path (base + d) = (c.plan w path base).map (List.map (Planned.shift d)) := by
  rw [plan_shift c w path (base + d), plan_shift c w path base]
  cases c.plan w path 0 with
  | error e => rfl
  | ok planned =>
    have hshift : (Planned.shift d ∘ Planned.shift base) = Planned.shift (base + d) := by
      funext q
      simp only [Function.comp_apply, Planned.shift, ← Nat.add_assoc, Nat.add_comm d base]
    simp only [Except.map, List.map_map, hshift]

/-- The places of a plan ascend. -/
theorem pairwise_index_of_plan (h : c.plan w path base = .ok planned) :
    planned.Pairwise fun q q' => q.index < q'.index := by
  have hplaces : (planned.map Planned.index).Pairwise (· < ·) := by
    rw [map_index_of_plan h]
    exact List.pairwise_lt_range'
  exact List.pairwise_map.mp hplaces

/-! ## The plan, compiled -/

theorem exists_compileAt_iff :
    (∃ p, c.compileAt w path configs base = .ok p) ↔
      ∃ planned, c.plan w path base = .ok planned ∧
        ∀ q ∈ planned, ∃ step, q.compile configs = .ok step := by
  simp only [compileAt_eq_ok]
  constructor
  · rintro ⟨_, planned, steps, hplan, hsteps, -⟩
    exact ⟨planned, hplan, fun q => hsteps.exists_of_mem⟩
  · rintro ⟨planned, hplan, hall⟩
    obtain ⟨steps, hsteps⟩ := exists_forall₂ hall
    exact ⟨_, planned, steps, hplan, hsteps, rfl⟩

theorem compileAt_of_unplanned (h : c.plan w path base = .error e) :
    c.compileAt w path configs base = .error e := by
  unfold compileAt
  rw [h]
  rfl

theorem compileAt_of_planned (h : c.plan w path base = .ok planned) :
    c.compileAt w path configs base =
      (planned.mapM (Planned.compile configs)).map fun steps => ⟨w.name, steps⟩ := by
  unfold compileAt
  rw [h]
  change planned.mapM (Planned.compile configs) >>=
    (fun steps => .ok (Pipeline.mk w.name steps)) = _
  cases planned.mapM (Planned.compile configs) <;> rfl

/-- **The failure of the smallest place is reported.** Since the places of a
plan ascend, what stands before a feature has smaller places and what stands
behind it greater ones. -/
theorem compileAt_eq_first_error (h : c.plan w path base = .ok planned) :
    c.compileAt w path configs base = .error e ↔
      ∃ q ∈ planned, q.compile configs = .error e ∧
        ∀ earlier ∈ planned, earlier.index < q.index →
          ∃ step, earlier.compile configs = .ok step := by
  have hplaces := pairwise_index_of_plan h
  rw [compileAt_of_planned h, map_eq_error, mapM_eq_error]
  constructor
  · rintro ⟨before, q, after, rfl, hbefore, hq⟩
    refine ⟨q, List.mem_append_right before List.mem_cons_self, hq, fun earlier hmem hlt => ?_⟩
    obtain ⟨hafter, -⟩ := List.pairwise_cons.mp (List.pairwise_append.mp hplaces).2.1
    rcases List.mem_append.mp hmem with hmem | hmem
    · exact hbefore earlier hmem
    · rcases List.mem_cons.mp hmem with rfl | hmem
      · exact absurd hlt (Nat.lt_irrefl _)
      · exact absurd hlt (Nat.lt_asymm (hafter earlier hmem))
  · rintro ⟨q, hmem, hq, hearlier⟩
    obtain ⟨before, after, rfl⟩ := List.append_of_mem hmem
    refine ⟨before, q, after, rfl, fun earlier hbefore => ?_, hq⟩
    have hlt := (List.pairwise_append.mp hplaces).2.2 earlier hbefore q List.mem_cons_self
    exact hearlier earlier (List.mem_append_left _ hbefore) hlt

theorem compileAt_congr (h : c.plan w path base = .ok planned)
    (hsame : ∀ q ∈ planned, others.get? q.index = configs.get? q.index) :
    c.compileAt w path others base = c.compileAt w path configs base := by
  rw [compileAt_of_planned h, compileAt_of_planned h]
  have hsteps : planned.mapM (Planned.compile others) = planned.mapM (Planned.compile configs) :=
    mapM_congr fun q hq => Planned.compile_congr (hsame q hq)
  rw [hsteps]

theorem compileAt_shift (d : Nat) :
    c.compileAt w path (configs.shift d) (base + d) = .ok p ↔
      ∃ first, c.compileAt w path configs base = .ok first ∧ p = first.shift d := by
  simp only [compileAt_eq_ok, plan_add, map_eq_ok]
  constructor
  · rintro ⟨_, steps, ⟨planned, hplan, rfl⟩, hsteps, rfl⟩
    obtain ⟨first, hfirst, rfl⟩ := (Compiled.shift_iff d).mp hsteps
    exact ⟨_, ⟨planned, first, hplan, hfirst, rfl⟩, rfl⟩
  · rintro ⟨_, ⟨planned, first, hplan, hfirst, rfl⟩, rfl⟩
    exact ⟨_, _, ⟨planned, hplan, rfl⟩, (Compiled.shift_iff d).mpr ⟨first, hfirst, rfl⟩, rfl⟩

/-- **Compilation step by step.** It succeeds where there is a plan and every
planned feature has a configuration and takes it, and then has a step for each
planned feature, at its place, made of its entry. A failure to plan is passed
on as it is, and otherwise the failure is that of the smallest place. What is
given for other places does not count, and moving the places and the
configurations together moves the steps and nothing else. -/
structure CompilesStepwise (c : Catalogs) (w : Workflow) (path : List Nat)
    (configs : StepConfigs) (base : Nat) : Prop where
  succeeds : (∃ p, c.compileAt w path configs base = .ok p) ↔
    ∃ planned, c.plan w path base = .ok planned ∧ ∀ q ∈ planned, ∃ given command,
      configs.resolve q.index q.entry = .ok given ∧ q.entry.feature.compile given = .ok command
  steps : ∀ planned p, c.plan w path base = .ok planned →
    c.compileAt w path configs base = .ok p → p.name = w.name ∧
      List.Forall₂ (fun q step => step.index = q.index ∧ ∃ given,
        configs.resolve q.index q.entry = .ok given ∧
          q.entry.instantiate given = .ok step.compiled) planned p.steps
  unplanned : ∀ e, c.plan w path base = .error e → c.compileAt w path configs base = .error e
  fails : ∀ planned e, c.plan w path base = .ok planned →
    (c.compileAt w path configs base = .error e ↔
      ∃ q ∈ planned, q.compile configs = .error e ∧
        ∀ earlier ∈ planned, earlier.index < q.index →
          ∃ step, earlier.compile configs = .ok step)
  reads : ∀ planned others, c.plan w path base = .ok planned →
    (∀ q ∈ planned, StepConfigs.get? others q.index = configs.get? q.index) →
      c.compileAt w path others base = c.compileAt w path configs base
  moves : ∀ d p, c.compileAt w path (configs.shift d) (base + d) = .ok p ↔
    ∃ first, c.compileAt w path configs base = .ok first ∧ p = first.shift d

/-- **Every workflow compiles step by step,** along every path, with any
configurations and from any place on. -/
theorem compileAt_stepwise (c : Catalogs) (w : Workflow) (path : List Nat)
    (configs : StepConfigs) (base : Nat) : c.CompilesStepwise w path configs base where
  succeeds := by simp only [exists_compileAt_iff, Planned.exists_compile_iff]
  steps planned p hplan hp := by
    obtain ⟨planned', steps, hplan', hsteps, rfl⟩ := compileAt_eq_ok.mp hp
    obtain rfl := Except.ok.inj (hplan.symm.trans hplan')
    exact ⟨rfl, hsteps.imp fun _ _ => Planned.placed_of_compile⟩
  unplanned _ := compileAt_of_unplanned
  fails _ _ := compileAt_eq_first_error
  reads _ _ := compileAt_congr
  moves d _ := compileAt_shift d

end Catalogs

end MediaPipeline
