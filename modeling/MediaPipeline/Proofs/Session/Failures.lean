import MediaPipeline.Proofs.Feature.Blame
import MediaPipeline.Proofs.Registry.Failures
import MediaPipeline.Proofs.Registry.Tree
import MediaPipeline.Proofs.Session.Submission
/-!
# Session/Failures — how the operations of a session may fail

Three branches report a fault of this library itself: a command that can be
resolved and has no pipeline on its path, a session that is ready and has no
pipeline, and a run that came to its end and has no output. None of them is
ever taken. The first is a matter of the registry alone (`exists_owner`); the
second follows from the state that a session is in (`Consistent.ready`); the
third from the run, which hands on what a step gave (`Moment.run_blames`). The
other failures of each operation are told by what they blame, so what is left
for an internal failure is a feature that answers with one
(`after_dependable`).
-/


namespace MediaPipeline

open Traversal

/-- The failures of a run that began: the intake was refused, a step failed, or
the run was aborted. -/
def Error.BlamesRun : Error → Prop
  | .unsupportedInput _ _ _ => True
  | .engine _ _ _ => True
  | .cancelled => True
  | _ => False

/-- A fault of this library itself. -/
def Error.IsInternal : Error → Prop
  | .internal _ => True
  | _ => False

/-- A computation that never fails by such a fault. -/
def Sure {α : Type} (x : Except Error α) : Prop := FailsBy (fun e => ¬ e.IsInternal) x

theorem Error.BlamesChoice.not_isInternal {e : Error} (h : e.BlamesChoice) : ¬ e.IsInternal := by
  cases e <;> first | exact id | exact h.elim

theorem Error.BlamesRun.not_isInternal {e : Error} (h : e.BlamesRun) : ¬ e.IsInternal := by
  cases e <;> first | exact id | exact h.elim

namespace Session

variable {s : Session}

/-! ## Choosing and compiling -/

theorem kinds_blames (s : Session) (selections : List Selection) :
    FailsBy Error.BlamesChoice (s.kinds selections) := by
  refine FailsBy.mapM fun selection _ => ?_
  cases s.registry.get? selection.path with
  | some node => exact FailsBy.ok _
  | none => exact FailsBy.error trivial

/-- A selection that the state does not allow is blamed on the moment, and any
other one that does not pass on what was chosen. -/
theorem checkSelections_fails (s : Session) (selections : List Selection) :
    FailsBy (fun e => e = s.notNow "select" ∨ e.BlamesChoice) (s.checkSelections selections) := by
  unfold checkSelections
  split
  · exact FailsBy.error (.inl rfl)
  · split
    · exact FailsBy.error (.inr trivial)
    · refine FailsBy.forM fun selection _ => ?_
      exact ((s.registry.resolve_blames selection).mono fun _ => Or.inr).map

theorem select_fails (s : Session) (selections : List Selection) :
    FailsBy (fun e => e = s.notNow "select" ∨ e.BlamesChoice) (s.select selections).result := by
  unfold Session.select
  cases hkinds : s.kinds selections with
  | error e => exact FailsBy.error (.inr (s.kinds_blames selections e hkinds))
  | ok kinds =>
    dsimp only
    split
    · split
      · exact FailsBy.error (.inr trivial)
      · exact FailsBy.ok _
    · cases hcheck : s.checkSelections selections with
      | ok _ => exact FailsBy.ok _
      | error e => exact FailsBy.error (s.checkSelections_fails selections e hcheck)

theorem plannedSteps_blames (s : Session) : FailsBy Error.BlamesChoice s.plannedSteps :=
  FailsBy.foldlM fun selection _ _ => (s.registry.plan_blames selection _).map

theorem pendingConfiguration_blames (s : Session) :
    FailsBy Error.BlamesChoice s.pendingConfiguration :=
  s.plannedSteps_blames.map

theorem configure_fails (s : Session) (index : Nat) (c : Configuration) :
    FailsBy (fun e => e = s.notNow "configure" ∨ e.BlamesChoice)
      (s.configure index c).result := by
  unfold Session.configure
  split
  · exact FailsBy.error (.inl rfl)
  · cases hplanned : s.plannedSteps with
    | error e => exact FailsBy.error (.inr (s.plannedSteps_blames e hplanned))
    | ok planned =>
      dsimp only
      split
      · exact FailsBy.ok _
      · exact FailsBy.error (.inr trivial)

/-- What is submitted in time fails as its selections fail to compile. -/
theorem submit_fails (s : Session) :
    FailsBy (fun e => s.submit = s.refuse (s.notNow "submit") ∧ e = s.notNow "submit" ∨
        e.BlamesChoice ∨ s.registry.Answers s.execution.chosen s.execution.configs e)
      s.submit.result := by
  intro e he
  by_cases hstate : s.state = .awaitingConfiguration
  · rw [submit_of_awaiting hstate] at he
    refine .inr (s.registry.compileAll_fails s.execution.chosen s.execution.configs e ?_)
    cases hcompiled : s.registry.compileAll s.execution.chosen s.execution.configs with
    | ok p =>
      rw [hcompiled] at he
      cases he
    | error e' =>
      rw [hcompiled] at he
      exact he
  · have hrefused : s.submit = s.refuse (s.notNow "submit") := if_pos hstate
    rw [hrefused] at he
    exact .inl ⟨hrefused, (Except.error.inj he).symm⟩

/-! ## Running -/

/-- **A run fails at a step, or is aborted.** Once a step is done there is
something to hand on, so the run does not come to its end with nothing. The
induction is over the steps that are left. -/
theorem Moment.run_blames {ω : Type} (e : Engine ω) (m : Moment ω) {steps : List CompiledStep}
    (h : steps = [] → m.inputs ≠ []) : FailsBy Error.BlamesRun (m.run e steps).result := by
  induction steps generalizing m with
  | nil =>
    show FailsBy _ m.conclude.result
    unfold Moment.conclude
    rw [List.getLast?_eq_some_getLast (h rfl)]
    exact FailsBy.ok _
  | cons step rest ih =>
    rcases turn_cases e m step with ⟨aborted, w, hturn⟩ | ⟨cause, aborted, w, hturn⟩ |
      ⟨output, elapsedMs, aborted, w, hturn⟩
    · rw [run_of_over hturn]
      exact FailsBy.error trivial
    · rw [run_of_over hturn]
      obtain ⟨index, feature, reason, hfailure⟩ := exists_stepError step cause
      refine FailsBy.error ?_
      rw [hfailure]
      trivial
    · rw [run_of_on hturn]
      exact ih _ fun _ => List.cons_ne_nil _ _

/-- A run that began fails as a run, and one that did not asks nothing of the
engine. -/
theorem Consistent.run_fails {ω : Type} (h : s.Consistent) (e : Engine ω)
    (intake : List Artifact) (w : ω) :
    FailsBy (fun err => s.run e intake w = ⟨.error (s.notNow "run"), s, w⟩ ∧
        err = s.notNow "run" ∨ err.BlamesRun) (s.run e intake w).result := by
  by_cases hready : s.state = .ready
  · obtain ⟨p, hp, hne, -, -⟩ := h.ready hready
    refine FailsBy.mono ?_ fun _ => Or.inr
    cases hcheck : p.checkInputs (intake.map (·.mediaType)) with
    | error err =>
      rw [run_of_refused hready hp.pipeline hcheck]
      obtain ⟨first, why, -, -, rfl⟩ := Pipeline.checkInputs_eq_error.mp hcheck
      exact FailsBy.error trivial
    | ok _ =>
      rw [run_of_taken hready hp.pipeline hcheck]
      exact Moment.run_blames e (s.opening intake w) fun hnil => absurd hnil hne
  · have hrefused : s.run e intake w = ⟨.error (s.notNow "run"), s, w⟩ := run_of_not_ready hready
    rw [hrefused]
    exact FailsBy.error (.inl ⟨rfl, rfl⟩)

/-- **A run that passes all its steps has an output,** which is what came last:
what the last call returned. The induction is over the steps that are left;
each answer takes the place of what was handed on before. -/
theorem Moment.exists_output {ω : Type} (e : Engine ω) (m : Moment ω) {steps : List CompiledStep}
    (h : steps = [] → m.inputs ≠ []) (hlength : (m.calls e steps).length = steps.length)
    (hanswered : ∀ call ∈ m.calls e steps, ∃ output, call.output? = some output) :
    ∃ report, (m.run e steps).result = .ok report ∧
      (m.inputs ++ (m.calls e steps).filterMap Call.output?).getLast? = some report.output := by
  induction steps generalizing m with
  | nil =>
    have hlast := List.getLast?_eq_some_getLast (h rfl)
    refine ⟨⟨m.reports, _⟩, ?_, (congrArg _ (List.append_nil _)).trans hlast⟩
    show m.conclude.result = _
    unfold Moment.conclude
    rw [hlast]
  | cons step rest ih =>
    by_cases hpulled : (m.begin e step).session.switch = .pulled
    · rw [calls_of_pulled hpulled] at hlength
      cases hlength
    · -- the call is there however the turn ends, so it was answered
      have hmem : (m.begin e step).call e step ∈ m.calls e (step :: rest) := by
        rw [Moment.calls, if_neg hpulled]
        exact List.mem_cons_self
      obtain ⟨answer, hanswer⟩ := hanswered _ hmem
      rcases hturn : m.turn e step with o | next
      · rw [output?_of_over hpulled hturn] at hanswer
        cases hanswer
      · obtain ⟨-, output, houtput, hinputs, -⟩ := exists_output_of_on hturn
        rw [calls_of_on hpulled hturn] at hlength hanswered ⊢
        rw [run_of_on hturn, List.filterMap_cons_some houtput]
        obtain ⟨report, hreport, hlast⟩ := ih next (fun _ => by simp [hinputs])
          (Nat.succ.inj hlength) fun call hcall => hanswered call (List.mem_cons_of_mem _ hcall)
        refine ⟨report, hreport, ?_⟩
        rw [hinputs] at hlast
        rw [List.getLast?_append_of_ne_nil _ (List.cons_ne_nil _ _)]
        exact hlast

theorem Consistent.exists_output {ω : Type} {e : Engine ω} {intake : List Artifact} {w : ω}
    {p : Pipeline} (h : s.Consistent) (hready : s.state = .ready) (hpipeline : s.pipeline = some p)
    (hlength : (s.calls e intake w).length = p.size)
    (hanswered : ∀ call ∈ s.calls e intake w, ∃ output, call.output? = some output) :
    ∃ report, (s.run e intake w).result = .ok report ∧
      ((s.calls e intake w).filterMap Call.output?).getLast? = some report.output := by
  obtain ⟨p', hp, hne, -⟩ := h.ready hready
  obtain rfl := Option.some.inj (hpipeline.symm.trans hp.pipeline)
  have hpos : 0 < (s.calls e intake w).length := by
    rw [hlength]
    exact List.length_pos_iff.mpr hne
  obtain ⟨call, hcall⟩ := List.exists_mem_of_length_pos hpos
  cases hcheck : p.checkInputs (intake.map (·.mediaType)) with
  | error err =>
    -- nothing is called for an intake that is refused
    rw [calls_of_refused hready hpipeline hcheck] at hcall
    exact absurd hcall List.not_mem_nil
  | ok _ =>
    rw [calls_of_taken hready hpipeline hcheck] at hlength hanswered hcall ⊢
    rw [run_of_taken hready hpipeline hcheck]
    obtain ⟨report, hreport, hlast⟩ :=
      Moment.exists_output e (s.opening intake w) (fun hnil => absurd hnil hne) hlength hanswered
    refine ⟨report, hreport, ?_⟩
    rw [← hlast, List.getLast?_append_of_ne_nil]
    intro hnil
    obtain ⟨output, houtput⟩ := hanswered call hcall
    cases houtput.symm.trans (List.filterMap_eq_nil_iff.mp hnil call hcall)

end Session

/-! ## Nothing internal -/

/-- **A registry that never fails by a fault of this library.** A path to a
command that compiles leads through one that owns the pipeline. -/
structure Registry.Dependable (r : Registry) : Prop where
  resolve : ∀ s, Sure (r.resolve s)
  plan : ∀ s base, Sure (r.plan s base)
  compile : ∀ s configs, Sure (r.compile s configs)
  compileAll : ∀ selections configs, Sure (r.compileAll selections configs)
  owner : ∀ (s : Selection) trail last, r.trail? s.path = some trail → trail.getLast? = some last →
    last.2.kind.isCompilable = true → ∃ i owner path,
      Registry.owner? trail = some (owner, path) ∧ (i, owner) ∈ trail ∧
        owner.kind.isCompilable = true

/-- **A session that never fails by a fault of this library,** with any engine.
When it is ready it has a pipeline with steps, and a run that passes them all
has the output of the last one. -/
structure Session.Dependable (s : Session) : Prop where
  select : ∀ selections, Sure (s.select selections).result
  plannedSteps : Sure s.plannedSteps
  pendingConfiguration : Sure s.pendingConfiguration
  configure : ∀ index c, Sure (s.configure index c).result
  submit : Sure s.submit.result
  run : ∀ {ω : Type} (e : Engine ω) intake w, Sure (s.run e intake w).result
  ready : s.state = .ready → ∃ p, s.pipeline = some p ∧ p.steps ≠ []
  output : ∀ {ω : Type} (e : Engine ω) intake w p, s.state = .ready → s.pipeline = some p →
    (s.calls e intake w).length = p.size →
    (∀ call ∈ s.calls e intake w, ∃ output, call.output? = some output) →
    ∃ report, (s.run e intake w).result = .ok report ∧
      ((s.calls e intake w).filterMap Call.output?).getLast? = some report.output

/-- A feature of the catalog is the only thing left to fail so. -/
theorem Registry.dependable {r : Registry}
    (hfeatures : ∀ e ∈ r.catalogs.features.entries, ∀ given, Sure (e.feature.compile given)) :
    r.Dependable := by
  have hcompileAll : ∀ selections configs, Sure (r.compileAll selections configs) := by
    intro selections configs
    refine (r.compileAll_fails selections configs).mono fun e he => ?_
    rcases he with hchoice | hanswers
    · exact hchoice.not_isInternal
    · obtain ⟨entry, hentry, given, hanswer⟩ := hanswers.exists_entry
      exact hfeatures entry hentry given e hanswer
  exact {
    resolve s := (r.resolve_blames s).mono fun _ => Error.BlamesChoice.not_isInternal
    plan s base := (r.plan_blames s base).mono fun _ => Error.BlamesChoice.not_isInternal
    compile s configs := hcompileAll [s] configs
    compileAll := hcompileAll
    owner s trail last _ hlast hkind := exists_owner (List.mem_of_getLast? hlast) hkind }

namespace Session

variable {s : Session}

theorem not_isInternal_notNow (s : Session) (action : String) :
    ¬ (s.notNow action).IsInternal :=
  fun h => h

/-- A failure that is blamed on the moment or on the choice is not internal. -/
theorem sure_of_fails {α : Type} {action : String} {x : Except Error α}
    (h : FailsBy (fun e => e = s.notNow action ∨ e.BlamesChoice) x) : Sure x := by
  refine h.mono fun e he => ?_
  rcases he with rfl | hchoice
  · exact s.not_isInternal_notNow action
  · exact hchoice.not_isInternal

theorem Consistent.dependable (h : s.Consistent) (hr : s.registry.Dependable) :
    s.Dependable where
  select selections := sure_of_fails (s.select_fails selections)
  plannedSteps := s.plannedSteps_blames.mono fun _ => Error.BlamesChoice.not_isInternal
  pendingConfiguration :=
    s.pendingConfiguration_blames.mono fun _ => Error.BlamesChoice.not_isInternal
  configure index c := sure_of_fails (s.configure_fails index c)
  submit := by
    by_cases hstate : s.state = .awaitingConfiguration
    · rw [result_submit hstate]
      exact hr.compileAll _ _
    · rw [show s.submit = s.refuse (s.notNow "submit") from if_pos hstate]
      exact FailsBy.error (s.not_isInternal_notNow "submit")
  run e intake w := by
    refine (h.run_fails e intake w).mono fun err herr => ?_
    rcases herr with ⟨-, rfl⟩ | hrun
    · exact s.not_isInternal_notNow "run"
    · exact hrun.not_isInternal
  ready hready := by
    obtain ⟨p, hp, hne, -⟩ := h.ready hready
    exact ⟨p, hp.pipeline, hne⟩
  output e intake w p hready hpipeline := h.exists_output hready hpipeline

/-- **No internal failure is ever reported.** Over every registry whose features
do not answer with one themselves, whatever operations went before and with
whatever engine: the registry and the session fail in other ways only, a
session that is ready has a pipeline, a run that passes all its steps has an
output, and a path to a command that compiles has an owner of the pipeline. -/
theorem after_dependable {r : Registry}
    (hfeatures : ∀ e ∈ r.catalogs.features.entries, ∀ given, Sure (e.feature.compile given))
    (id : SessionId) (operations : List Operation) :
    r.Dependable ∧ (after id r operations).Dependable := by
  have hr := Registry.dependable hfeatures
  refine ⟨hr, ((consistent_start id r).foldl operations).dependable ?_⟩
  show (after id r operations).registry.Dependable
  rw [registry_after]
  exact hr

theorem after_dependable_newsreels :
    ∃ r, Registry.build Registry.newsreels {} = .ok r ∧
      (∀ e ∈ r.catalogs.features.entries, ∀ given, Sure (e.feature.compile given)) ∧
      (after ⟨⟨0⟩⟩ r [.select [⟨"Workflows/Newsreel", [0]⟩], .submit]).state = .ready ∧
      r.Dependable ∧
      (after ⟨⟨0⟩⟩ r [.select [⟨"Workflows/Newsreel", [0]⟩], .submit]).Dependable := by
  have hready : ∃ r, Registry.build Registry.newsreels {} = .ok r ∧
      (after ⟨⟨0⟩⟩ r [.select [⟨"Workflows/Newsreel", [0]⟩], .submit]).state = .ready :=
    ⟨_, by cbv, by cbv⟩
  obtain ⟨r, hbuild, hready⟩ := hready
  have hfeatures : ∀ e ∈ r.catalogs.features.entries, ∀ given,
      Sure (e.feature.compile given) := by
    intro e he given
    rw [Registry.catalogs_of_build hbuild] at he
    -- a feature of this library fails by what it was given
    refine (isUserError_of_builtin (Registry.mem_builtin_of_newsreels he) given).mono
      fun err huser => ?_
    cases err <;> first | exact fun h => h | cases huser
  exact ⟨r, hbuild, hfeatures, hready, after_dependable hfeatures _ _⟩

end Session

end MediaPipeline
