import MediaPipeline.Proofs.Session.Conduct
import MediaPipeline.Proofs.StepConfigs
/-!
# Session/Submission — to select, configure and submit is to compile

A session compiles its choice in three operations, and computes the places of
the steps in each of them afresh: the plan that the user sees counts what is
planned so far, and compilation counts what is compiled so far. The two agree
because both are the plans of the selections (`plannedSteps_eq_ok`). Calls that
configure steps only add to the configurations (`configured_iff`), so what is
submitted compiles to what its selections compile to with the last
configuration given for each step (`submit_agrees`).
-/


namespace MediaPipeline

open Traversal

namespace Session

variable {s t : Session} {selections : List Selection} {calls : List (Nat × Configuration)}

/-! ## What is planned, and what is pending -/

/-- The plans of selections behind what is planned so far. The induction is
over the selections. -/
theorem foldlM_plan_eq_ok {r : Registry} {done all : List Planned} :
    selections.foldlM (fun done selection => (r.plan selection done.length).map (done ++ ·)) done =
        .ok all ↔
      ∃ plans, r.Plans done.length selections plans ∧ all = done ++ plans.flatten := by
  induction selections generalizing done with
  | nil =>
    constructor
    · intro h
      cases h
      exact ⟨[], .nil, (List.append_nil _).symm⟩
    · rintro ⟨plans, hplans, rfl⟩
      cases hplans
      exact congrArg Except.ok (List.append_nil done).symm
  | cons selection rest ih =>
    rw [List.foldlM_cons]
    simp only [bind_eq_ok, map_eq_ok]
    constructor
    · rintro ⟨_, ⟨planned, hplan, rfl⟩, hrest⟩
      obtain ⟨plans, hplans, rfl⟩ := ih.mp hrest
      -- what is planned behind starts where this plan ends
      rw [List.length_append] at hplans
      exact ⟨planned :: plans, .cons hplan hplans, List.append_assoc _ _ _⟩
    · rintro ⟨plans, hplans, rfl⟩
      cases hplans with
      | @cons _ _ _ planned plans hplan hrest =>
        refine ⟨_, ⟨planned, hplan, rfl⟩, ih.mpr ⟨plans, ?_, (List.append_assoc _ _ _).symm⟩⟩
        rw [List.length_append]
        exact hrest

/-- **The planned steps of a session are the plans of its choice,** in the
places in which it is compiled. -/
theorem plannedSteps_eq_ok {planned : List Planned} :
    s.plannedSteps = .ok planned ↔
      ∃ plans, s.registry.Plans 0 s.execution.chosen plans ∧ planned = plans.flatten :=
  foldlM_plan_eq_ok

/-- **Nothing is pending where every planned step has a configuration,** given
or by default. -/
theorem pendingConfiguration_eq_nil {planned : List Planned} (h : s.plannedSteps = .ok planned) :
    s.pendingConfiguration = .ok [] ↔
      ∀ q ∈ planned, ∃ given, s.execution.configs.resolve q.index q.entry = .ok given := by
  unfold pendingConfiguration
  rw [h]
  show Except.ok _ = Except.ok _ ↔ _
  simp only [Except.ok.injEq, List.filter_eq_nil_iff, StepConfigs.resolve_eq_ok]
  refine forall₂_congr fun q _ => ?_
  cases s.execution.configs.get? q.index <;> cases q.entry.defaults <;> simp

/-! ## Configuring -/

/-- The session with other configurations. -/
def withConfigs (s : Session) (configs : StepConfigs) : Session :=
  { s with execution := { s.execution with configs := configs } }

/-- Whether a session takes a configuration for the step at a place: it awaits
configuration, and has planned a step there. -/
structure Takes (s : Session) (index : Nat) : Prop where
  state : s.state = .awaitingConfiguration
  planned : ∃ planned, s.plannedSteps = .ok planned ∧ ∃ q ∈ planned, q.index = index

theorem Takes.withConfigs {index : Nat} (h : s.Takes index) (configs : StepConfigs) :
    (s.withConfigs configs).Takes index :=
  ⟨h.state, h.planned⟩

theorem Takes.configure {index : Nat} (h : s.Takes index) (c : Configuration) :
    s.configure index c = ⟨.ok (), s.withConfigs (s.execution.configs.insert index c)⟩ := by
  obtain ⟨planned, hplanned, q, hq, hindex⟩ := h.planned
  have hany : planned.any fun (p : Planned) => p.index == index :=
    List.any_eq_true.mpr ⟨q, hq, beq_iff_eq.mpr hindex⟩
  unfold Session.configure
  rw [if_neg (not_not.mpr h.state), hplanned]
  exact if_pos hany

theorem configure_eq_ok {index : Nat} {c : Configuration} :
    (s.configure index c).result = .ok () ↔ s.Takes index := by
  constructor
  · intro h
    unfold Session.configure at h
    split at h
    · cases h
    · rename_i hstate
      split at h
      · cases h
      · rename_i planned hplanned
        split at h
        · rename_i hany
          obtain ⟨q, hq, hindex⟩ := List.any_eq_true.mp hany
          exact ⟨not_not.mp hstate, planned, hplanned, q, hq, beq_iff_eq.mp hindex⟩
        · cases h
  · intro h
    rw [h.configure]

/-- **Sessions that calls lead to** which configure steps one after the other,
and all succeed. -/
inductive Configured : Session → List (Nat × Configuration) → Session → Prop
  | nil {s : Session} : Configured s [] s
  | cons {s t : Session} {index : Nat} {c : Configuration} {calls : List (Nat × Configuration)}
      (hcall : (s.configure index c).result = .ok ())
      (hrest : Configured (s.configure index c).session calls t) :
      Configured s ((index, c) :: calls) t

/-- **What calls to configure steps do:** each is for a step that is planned,
and all they change is the configurations. -/
theorem configured_iff :
    s.Configured calls t ↔ (∀ call ∈ calls, s.Takes call.1) ∧
      t = s.withConfigs (s.execution.configs.insertAll calls) := by
  induction calls generalizing s with
  | nil =>
    constructor
    · intro h
      cases h
      exact ⟨fun _ hcall => absurd hcall List.not_mem_nil, rfl⟩
    · rintro ⟨-, rfl⟩
      exact .nil
  | cons call calls ih =>
    constructor
    · intro h
      cases h with
      | @cons _ _ index c _ hcall hrest =>
        have htakes := configure_eq_ok.mp hcall
        rw [htakes.configure] at hrest
        obtain ⟨hall, rfl⟩ := ih.mp hrest
        -- with other configurations the session takes what it took before
        exact ⟨List.forall_mem_cons.mpr ⟨htakes, fun call hcall => (hall call hcall).withConfigs _⟩,
          rfl⟩
    · rintro ⟨hall, rfl⟩
      obtain ⟨htakes, hall⟩ := List.forall_mem_cons.mp hall
      refine .cons (configure_eq_ok.mpr htakes) ?_
      rw [htakes.configure]
      exact ih.mpr ⟨fun call hcall => (hall call hcall).withConfigs _, rfl⟩

/-- **The order of calls for different steps does not matter:** other calls
that are the same for each step, in the same order, lead to the same session. -/
theorem Configured.reorder {calls' : List (Nat × Configuration)} (h : s.Configured calls t)
    (hsame : ∀ index, calls'.filter (fun call => call.1 = index) =
      calls.filter fun call => call.1 = index) : s.Configured calls' t := by
  obtain ⟨hall, rfl⟩ := configured_iff.mp h
  refine configured_iff.mpr ⟨fun call hcall => ?_, ?_⟩
  · -- a call is among those for its own step, which are the same
    have hmem : call ∈ calls'.filter fun other => other.1 = call.1 :=
      List.mem_filter.mpr ⟨hcall, decide_eq_true rfl⟩
    rw [hsame] at hmem
    exact hall call (List.mem_of_mem_filter hmem)
  · have hlast : ∀ index, lastGiven calls' index = lastGiven calls index := fun index => by
      rw [lastGiven, lastGiven, hsame]
    rw [StepConfigs.insertAll_congr hlast]

/-! ## Submitting -/

theorem result_submit (h : s.state = .awaitingConfiguration) :
    s.submit.result = s.registry.compileAll s.execution.chosen s.execution.configs := by
  rw [submit_of_awaiting h]
  cases s.registry.compileAll s.execution.chosen s.execution.configs <;> rfl

/-- A selection after which a session awaits configuration was checked and
chosen. -/
theorem select_of_awaiting (hselect : (s.select selections).result = .ok ())
    (hawaits : (s.select selections).session.state = .awaitingConfiguration) :
    selections ≠ [] ∧ (s.select selections).session = s.choose selections := by
  rcases s.select_cases selections with ⟨e, heq⟩ | ⟨-, heq⟩ | ⟨hcheck, heq⟩
  · rw [heq] at hselect
    cases hselect
  · -- the action that clears the session leads to the beginning
    rw [heq] at hawaits
    cases (state_reset s).symm.trans hawaits
  · obtain ⟨-, hne, -⟩ := checkSelections_eq_ok.mp hcheck
    exact ⟨hne, by rw [heq]⟩

/-- **A session submits what its selections compile to** with some
configurations. Where that succeeds, the session had planned the steps of the
pipeline, in the same places, and nothing was pending. And where steps are
planned and nothing is pending, each of them has a configuration; so what may
still go wrong is that a feature does not take the one it has, or that two
pipelines do not join. -/
structure Agrees (r : Registry) (selections : List Selection) (configs : StepConfigs)
    (s : Session) : Prop where
  result : s.submit.result = r.compileAll selections configs
  planned : ∀ p, s.submit.result = .ok p → s.pendingConfiguration = .ok [] ∧
    ∃ planned, s.plannedSteps = .ok planned ∧
      planned.map (fun q => (q.index, q.entry.key)) =
        p.steps.map fun step => (step.index, step.compiled.key)
  resolves : ∀ planned, s.plannedSteps = .ok planned → s.pendingConfiguration = .ok [] →
    ∀ q ∈ planned, ∃ given, configs.resolve q.index q.entry = .ok given
  fails : ∀ planned e, s.plannedSteps = .ok planned → s.pendingConfiguration = .ok [] →
    s.submit.result = .error e →
      (∃ q ∈ planned, ∃ given, configs.resolve q.index q.entry = .ok given ∧
        q.entry.feature.compile given = .error e) ∨
      ∃ joined producer consumer reason, e = .incompatible joined producer consumer reason

/-- A session that awaits configuration agrees with the direct way. -/
theorem agrees_of_awaiting (hstate : s.state = .awaitingConfiguration)
    (hne : s.execution.chosen ≠ []) :
    s.Agrees s.registry s.execution.chosen s.execution.configs where
  result := result_submit hstate
  planned p hp := by
    rw [result_submit hstate] at hp
    obtain ⟨-, plans, hplans, hsteps, -⟩ := Registry.compileAll_eq_ok.mp ⟨p, hp, rfl⟩
    have hplanned := plannedSteps_eq_ok.mpr ⟨plans, hplans, rfl⟩
    refine ⟨(pendingConfiguration_eq_nil hplanned).mpr fun q hq => ?_, _, hplanned,
      hsteps.map_key⟩
    obtain ⟨step, hstep⟩ := hsteps.exists_of_mem hq
    obtain ⟨given, _, hgiven, -⟩ := Planned.compile_eq_ok.mp hstep
    exact ⟨given, StepConfigs.resolve_eq_ok.mpr hgiven⟩
  resolves planned hplanned hpending := (pendingConfiguration_eq_nil hplanned).mp hpending
  fails planned e hplanned hpending he := by
    have hresolves := (pendingConfiguration_eq_nil hplanned).mp hpending
    obtain ⟨plans, hplans, rfl⟩ := plannedSteps_eq_ok.mp hplanned
    rw [result_submit hstate] at he
    cases Registry.compileAll_eq_error hne hplans he with
    | @step q hq hcompile =>
      -- a planned step that has a configuration can only not take it
      obtain ⟨given, hgiven⟩ := hresolves q hq
      rcases Planned.compile_eq_error.mp hcompile with hmissing | ⟨_, hsame, hanswer⟩
      · cases hmissing.symm.trans hgiven
      · exact .inl ⟨q, hq, _, hsame, hanswer⟩
    | join heq => exact .inr ⟨_, _, _, _, heq⟩

/-- **To select, configure and submit is to compile.** A session that a
selection brought to await configuration, and that calls then configured which
all succeeded, submits exactly what the selections compile to with, for each
step, the last configuration that the calls gave for it. It had planned the
steps of that pipeline, and without a pending configuration it cannot fail for
want of one. How the calls for different steps were mixed makes no
difference. -/
theorem submit_agrees (hselect : (s.select selections).result = .ok ())
    (hawaits : (s.select selections).session.state = .awaitingConfiguration)
    (hcalls : (s.select selections).session.Configured calls t) :
    (∃ configs : StepConfigs, (∀ index, configs.get? index = lastGiven calls index) ∧
        t.Agrees s.registry selections configs) ∧
      ∀ calls' : List (Nat × Configuration),
        (∀ index, calls'.filter (fun call => call.1 = index) =
          calls.filter fun call => call.1 = index) →
        (s.select selections).session.Configured calls' t := by
  obtain ⟨hne, hchosen⟩ := select_of_awaiting hselect hawaits
  refine ⟨?_, fun calls' => hcalls.reorder⟩
  obtain ⟨-, rfl⟩ := configured_iff.mp hcalls
  rw [hchosen]
  refine ⟨StepConfigs.empty.insertAll calls, fun index => ?_, ?_⟩
  · rw [StepConfigs.get?_insertAll]
    exact Option.or_none
  · exact agrees_of_awaiting (s := (s.choose selections).withConfigs _) rfl hne

/-- A choice of two features. -/
def bothFeatures : List Selection := [⟨"Features/Grayscale", []⟩, ⟨"Features/Remove Audio", []⟩]

/-- Calls that configure them, the second one twice. -/
def secondThoughts : List (Nat × Configuration) :=
  [(1, Configuration.empty.set "NOTE" (.text "draft")), (0, .empty), (1, .empty)]

theorem submit_agrees_secondThoughts :
    ∃ t, ((start ⟨⟨0⟩⟩ silentFilm).select bothFeatures).result = .ok () ∧
      ((start ⟨⟨0⟩⟩ silentFilm).select bothFeatures).session.state = .awaitingConfiguration ∧
      ((start ⟨⟨0⟩⟩ silentFilm).select bothFeatures).session.Configured secondThoughts t ∧
      (∃ p, t.submit.result = .ok p) ∧
      ∃ configs : StepConfigs, (∀ index, configs.get? index = lastGiven secondThoughts index) ∧
        t.Agrees silentFilm bothFeatures configs := by
  have hselect : ((start ⟨⟨0⟩⟩ silentFilm).select bothFeatures).result = .ok () := by cbv
  have hawaits : ((start ⟨⟨0⟩⟩ silentFilm).select bothFeatures).session.state =
      .awaitingConfiguration := by cbv
  have hcalls : ∃ t,
      ((start ⟨⟨0⟩⟩ silentFilm).select bothFeatures).session.Configured secondThoughts t ∧
        ∃ p, t.submit.result = .ok p :=
    ⟨_, .cons (by cbv) (.cons (by cbv) (.cons (by cbv) .nil)), _, by cbv⟩
  obtain ⟨t, hcalls, hsubmit⟩ := hcalls
  obtain ⟨hagrees, -⟩ := submit_agrees hselect hawaits hcalls
  exact ⟨t, hselect, hawaits, hcalls, hsubmit, hagrees⟩

end Session

end MediaPipeline
