import MediaPipeline.Proofs.Session.Statuses
import MediaPipeline.Session.Run
/-!
# Session/Turns — what a run makes of a session, step by step

A run leaves the `charge` of its session alone: what was chosen, how it was
configured, and the pipeline it compiled to. `Runs` says what else there is
to know of a session while it runs: the status of every step and the place of
the current one. Between two steps those behind are done and those ahead are
pending (`Moment.Between`). A turn either keeps that, with one step more
behind, or ends the run (`Between.turn`); by induction over the steps that
are left, a run ends reset, failed at one step, or with all steps done
(`Between.run`).
-/


namespace MediaPipeline

namespace Session

/-! ## What a run leaves alone -/

/-- What a session was given to run. -/
structure Charge where
  id : SessionId
  registry : Registry
  chosen : List Selection
  configs : StepConfigs
  pipeline : Option Pipeline

/-- What the session was given to run. -/
def charge (s : Session) : Charge where
  id := s.id
  registry := s.registry
  chosen := s.execution.chosen
  configs := s.execution.configs
  pipeline := s.pipeline

/-- Where a session comes from. -/
def origin (s : Session) : SessionId × Registry := (s.id, s.registry)

@[simp] theorem origin_reset (s : Session) : s.reset.origin = s.origin := by
  unfold Session.reset
  split <;> rfl

@[simp] theorem origin_abort (s : Session) : s.abort.origin = s.origin := by
  unfold Session.abort
  split <;> rfl

@[simp] theorem origin_abortIf (s : Session) (aborted : Bool) :
    (s.abortIf aborted).origin = s.origin := by
  cases aborted with
  | false => rfl
  | true => exact s.origin_abort

/-- **What is known of a session while it runs:** it has the charge it began
with, the status of every step, and the place of the current step. -/
structure Runs (base : Session) (statuses : List (Nat × Status)) (current : Option Nat)
    (s : Session) : Prop where
  charge : s.charge = base.charge
  state : s.state = .running
  statuses : s.execution.progress.entries = statuses
  current : s.execution.currentStep = current

namespace Runs

variable {base s : Session} {statuses before after : List (Nat × Status)} {current : Option Nat}
  {index : Nat} {old : Status}

/-- Another status for one step. -/
theorem setStatus (h : Runs base (before ++ (index, old) :: after) current s)
    (status : Status) :
    Runs base (before ++ (index, status) :: after) current (s.setStatus index status) where
  charge := h.charge
  state := h.state
  statuses := ProgressTable.entries_set h.statuses
  current := h.current

theorem announce (h : Runs base statuses current s) (a : Announcement) :
    Runs base statuses current (s.announce a) :=
  ⟨h.charge, h.state, h.statuses, h.current⟩

theorem abortIf (h : Runs base statuses current s) (aborted : Bool) :
    Runs base statuses current (s.abortIf aborted) := by
  unfold Session.abortIf Session.abort
  cases aborted with
  | false => exact h
  | true =>
    cases s.switch
    case armed => exact ⟨h.charge, h.state, h.statuses, h.current⟩
    all_goals exact h

theorem startStep {step : CompiledStep}
    (h : Runs base (before ++ (step.index, old) :: after) current s) :
    Runs base (before ++ (step.index, .running) :: after) (some step.index)
      (s.startStep step) := by
  have hcurrent : Runs base (before ++ (step.index, old) :: after) (some step.index)
      { s with execution := { s.execution with currentStep := some step.index } } :=
    ⟨h.charge, h.state, h.statuses, rfl⟩
  exact (hcurrent.setStatus .running).announce _

theorem completeStep {step : CompiledStep}
    (h : Runs base (before ++ (step.index, old) :: after) current s) (elapsedMs : Nat) :
    Runs base (before ++ (step.index, .done) :: after) current (s.completeStep step elapsedMs) :=
  (h.setStatus .done).announce _

end Runs

/-- A step that failed ends the work of the session: the step is marked, and
the session keeps the failure. -/
theorem Runs.failStep {base s : Session} {before after : List (Nat × Status)}
    {current : Option Nat} {old : Status} {step : CompiledStep}
    (h : Runs base (before ++ (step.index, old) :: after) current s) (e : Error) :
    (s.failStep step e).charge = base.charge ∧ (s.failStep step e).state = .failed ∧
      (s.failStep step e).lastError = some e.message ∧
      (s.failStep step e).execution.progress.entries =
        before ++ (step.index, .failed) :: after :=
  ⟨h.charge, rfl, rfl, (h.setStatus .failed).statuses⟩

/-! ## How a run ends -/

/-- Steps of which one failed: those before it are done, and those behind it
were not tried. -/
def brokenOff (done : List CompiledStep) (step : CompiledStep) (rest : List CompiledStep) :
    List (Nat × Status) :=
  marked .done done ++ (step.index, .failed) :: marked .pending rest

/-- **What a run over some steps leaves behind:** a session that was reset, or
one that failed at one of the steps, or one with all steps done. -/
inductive Left (base : Session) (steps : List CompiledStep) : Session → Prop where
  | reset (s : Session) : Left base steps s.reset
  | failed {s : Session} {done rest : List CompiledStep} {step : CompiledStep}
      (charge : s.charge = base.charge) (state : s.state = .failed) (error : s.lastError ≠ none)
      (split : steps = done ++ step :: rest)
      (statuses : s.execution.progress.entries = brokenOff done step rest) : Left base steps s
  | succeeded {s : Session} (charge : s.charge = base.charge) (state : s.state = .succeeded)
      (statuses : s.execution.progress.entries = marked .done steps)
      (current : s.execution.currentStep = steps.getLast?.map CompiledStep.index) :
      Left base steps s

/-! ## One turn, and a run -/

namespace Moment

variable {ω : Type} {base : Session} {m : Moment ω} {step : CompiledStep}
  {done rest : List CompiledStep}

/-- **What is known of a run between two steps:** those behind are done and
reported, those ahead are pending, and there is something to hand on. -/
structure Between (base : Session) (done rest : List CompiledStep) (m : Moment ω) : Prop where
  runs : Runs base (marked .done done ++ marked .pending rest)
    (done.getLast?.map CompiledStep.index) m.session
  inputs : done ≠ [] → m.inputs ≠ []
  reports : m.reports.map (fun report => (report.index, report.feature)) =
    done.map fun step => (step.index, step.name)

/-- A step that was begun runs, whether or not the run was aborted. -/
theorem Between.begin (h : m.Between base done (step :: rest)) (e : Engine ω) :
    Runs base (marked .done done ++ (step.index, .running) :: marked .pending rest)
      (some step.index) (m.begin e step).session := by
  unfold Moment.begin
  exact h.runs.startStep.abortIf _

/-- A step that was completed stands behind. -/
theorem Between.complete (h : m.Between base done (step :: rest)) (e : Engine ω)
    (output : Artifact) (elapsedMs : Nat) (aborted : Bool) (w : ω) :
    ((m.begin e step).complete step output elapsedMs aborted w).Between base
      (done ++ [step]) rest where
  runs := by
    -- the step that is behind now is the one whose status was replaced
    rw [marked_append, List.append_assoc, List.getLast?_concat]
    exact ((h.begin e).abortIf aborted).completeStep elapsedMs
  inputs _ := List.cons_ne_nil _ _
  reports := by
    show (m.reports ++ [StepReport.mk step.index step.name elapsedMs]).map _ = _
    rw [List.map_append, List.map_append, h.reports]
    rfl

/-- A step that failed ends the run at it. -/
theorem Between.stop (h : m.Between base done (step :: rest)) (e : Engine ω) (cause : Error)
    (aborted : Bool) (w : ω) :
    Left base (done ++ step :: rest)
      ((m.begin e step).stop step cause aborted w).session := by
  obtain ⟨hcharge, hstate, herror, hstatuses⟩ :=
    ((h.begin e).abortIf aborted).failStep (stepError step cause)
  refine .failed hcharge hstate ?_ rfl hstatuses
  rw [Moment.stop, herror]
  exact Option.some_ne_none _

/-- A turn without a call: the run was aborted before. -/
theorem turn_of_pulled {e : Engine ω} (h : (m.begin e step).session.switch = .pulled) :
    m.turn e step = .over (abandon e (m.begin e step).session (m.begin e step).world) :=
  if_pos h

/-- A turn with a call settles what the engine replied. -/
theorem turn_of_call {e : Engine ω} {answer : Reply × ω}
    (h : (m.begin e step).session.switch ≠ .pulled)
    (hcall : e.call ((m.begin e step).session.request step m.inputs) (m.begin e step).world =
      answer) :
    m.turn e step = (m.begin e step).settle e step answer := by
  rw [← hcall]
  exact if_neg h

theorem run_of_over {e : Engine ω} {outcome : RunOutcome ω}
    (h : m.turn e step = .over outcome) : m.run e (step :: rest) = outcome := by
  rw [Moment.run, h]

theorem run_of_on {e : Engine ω} {next : Moment ω} (h : m.turn e step = .on next) :
    m.run e (step :: rest) = next.run e rest := by
  rw [Moment.run, h]

/-- A turn ends the run by an abort or by a failure of the step, or completes
the step. -/
theorem turn_cases (e : Engine ω) (m : Moment ω) (step : CompiledStep) :
    (∃ aborted w, m.turn e step =
        .over (abandon e ((m.begin e step).session.abortIf aborted) w)) ∨
      (∃ cause aborted w, m.turn e step = .over ((m.begin e step).stop step cause aborted w)) ∨
      ∃ output elapsedMs aborted w,
        m.turn e step = .on ((m.begin e step).complete step output elapsedMs aborted w) := by
  by_cases hpulled : (m.begin e step).session.switch = .pulled
  · exact .inl ⟨false, _, turn_of_pulled hpulled⟩
  · rcases hcall : e.call ((m.begin e step).session.request step m.inputs)
      (m.begin e step).world with ⟨reply, w⟩
    have hturn := turn_of_call hpulled hcall
    cases reply with
    | interrupted => exact .inl ⟨true, _, hturn⟩
    | finished result elapsedMs aborted =>
      cases result with
      | ok output => exact .inr (.inr ⟨output, elapsedMs, aborted, w, hturn⟩)
      | error cause => exact .inr (.inl ⟨cause, aborted, w, hturn⟩)

theorem origin_begin (e : Engine ω) (m : Moment ω) (step : CompiledStep) :
    (m.begin e step).session.origin = m.session.origin :=
  origin_abortIf _ _

/-- However a run ends, its session still comes from where it came from. -/
theorem origin_run (e : Engine ω) (m : Moment ω) (steps : List CompiledStep) :
    (m.run e steps).session.origin = m.session.origin := by
  induction steps generalizing m with
  | nil =>
    show m.conclude.session.origin = _
    unfold Moment.conclude
    cases m.inputs.getLast? <;> rfl
  | cons step rest ih =>
    have hbegin := origin_begin e m step
    rcases turn_cases e m step with ⟨aborted, w, hturn⟩ | ⟨cause, aborted, w, hturn⟩ |
      ⟨output, elapsedMs, aborted, w, hturn⟩
    · rw [run_of_over hturn]
      exact (origin_reset _).trans ((origin_abortIf _ _).trans hbegin)
    · rw [run_of_over hturn]
      exact (origin_abortIf _ _).trans hbegin
    · rw [run_of_on hturn, ih]
      exact (origin_abortIf _ _).trans hbegin

/-- **What one turn makes of a run between two steps.** -/
theorem Between.turn (h : m.Between base done (step :: rest)) (e : Engine ω) :
    (∃ outcome, m.turn e step = .over outcome ∧
        Left base (done ++ step :: rest) outcome.session) ∨
      ∃ next, m.turn e step = .on next ∧ next.Between base (done ++ [step]) rest := by
  rcases turn_cases e m step with ⟨aborted, w, hturn⟩ | ⟨cause, aborted, w, hturn⟩ |
    ⟨output, elapsedMs, aborted, w, hturn⟩
  · exact .inl ⟨_, hturn, .reset _⟩
  · exact .inl ⟨_, hturn, h.stop e cause aborted w⟩
  · exact .inr ⟨_, hturn, h.complete e output elapsedMs aborted w⟩

/-- With no step left, the run has succeeded. -/
theorem Between.conclude (h : m.Between base done []) (hne : done ≠ []) :
    ∃ output, m.inputs.getLast? = some output ∧
      m.conclude.result = .ok ⟨m.reports, output⟩ ∧
      m.conclude.session.charge = base.charge ∧ m.conclude.session.state = .succeeded ∧
      m.conclude.session.execution.progress.entries = marked .done done ∧
      m.conclude.session.execution.currentStep = done.getLast?.map CompiledStep.index := by
  have hlast := List.getLast?_eq_some_getLast (h.inputs hne)
  refine ⟨_, hlast, ?_⟩
  unfold Moment.conclude
  rw [hlast]
  refine ⟨rfl, h.runs.charge, rfl, ?_, h.runs.current⟩
  exact h.runs.statuses.trans (List.append_nil _)

/-- **What a whole run leaves behind.** The induction is over the steps that
are left; each that is completed goes over to those behind. -/
theorem Between.run (h : m.Between base done rest) (hne : done ++ rest ≠ []) (e : Engine ω) :
    Left base (done ++ rest) (m.run e rest).session := by
  induction rest generalizing m done with
  | nil =>
    rw [List.append_nil] at hne ⊢
    obtain ⟨output, -, -, hcharge, hstate, hstatuses, hcurrent⟩ := h.conclude hne
    exact .succeeded hcharge hstate hstatuses hcurrent
  | cons step rest ih =>
    rcases h.turn e with ⟨outcome, hturn, hleft⟩ | ⟨next, hturn, hnext⟩
    · rw [run_of_over hturn]
      exact hleft
    · rw [run_of_on hturn]
      have hleft := ih hnext (by simp)
      rw [List.append_assoc] at hleft
      exact hleft

end Moment

/-- A run begins with all steps ahead. -/
theorem opening_between {ω : Type} {s : Session} {steps : List CompiledStep}
    (hstatuses : s.execution.progress.entries = marked .pending steps)
    (hcurrent : s.execution.currentStep = none) (intake : List Artifact) (w : ω) :
    (s.opening intake w).Between s [] steps where
  runs := ⟨rfl, rfl, hstatuses, hcurrent⟩
  inputs h := absurd rfl h
  reports := rfl

/-! ## A run of a session -/

section Run

variable {ω : Type} {s : Session} {p : Pipeline} {e : Engine ω} {intake : List Artifact} {w : ω}

theorem run_of_not_ready (h : s.state ≠ .ready) :
    s.run e intake w = ⟨.error (s.notNow "run"), s, w⟩ :=
  if_pos h

/-- An intake that the first step refuses ends the work of the session. -/
theorem run_of_refused {err : Error} (hready : s.state = .ready) (hp : s.pipeline = some p)
    (herr : p.checkInputs (intake.map (·.mediaType)) = .error err) :
    s.run e intake w = ⟨.error err, s.fail err, w⟩ := by
  unfold Session.run
  rw [if_neg (not_not.mpr hready), hp]
  dsimp only
  rw [herr]

/-- An intake that it takes is run through all steps. -/
theorem run_of_taken (hready : s.state = .ready) (hp : s.pipeline = some p)
    (htaken : p.checkInputs (intake.map (·.mediaType)) = .ok ()) :
    s.run e intake w = ((s.opening intake w).run e p.steps).disarm := by
  unfold Session.run
  rw [if_neg (not_not.mpr hready), hp]
  dsimp only
  rw [htaken]

theorem origin_run (s : Session) (e : Engine ω) (intake : List Artifact) (w : ω) :
    (s.run e intake w).session.origin = s.origin := by
  unfold Session.run
  split
  · rfl
  · split
    · rfl
    · split
      · rfl
      · exact Moment.origin_run e (s.opening intake w) _

end Run

end Session

end MediaPipeline
