import MediaPipeline.Proofs.Session.Consistency
/-!
# Session/Course — what a run announces

`log` is what a session announced, the oldest first. Two things are asked of
a log: its changes of state form a chain in which each change is one that the
lifecycle allows (`Chain`), and each step that is started is closed at once
(`Closed`). What a run announces follows a grammar, `Course`, with a rule for
each way a step may go; the run is shown to follow it turn by turn
(`Moment.Between.course`), and the rest is read off the grammar.
-/


namespace MediaPipeline

namespace Announcement

/-- The names of the states before and after a change. -/
def change? : Announcement → Option (String × String)
  | .stateChanged before after => some (before, after)
  | _ => none

/-- The place of a step that is started. -/
def started? : Announcement → Option Nat
  | .stepStarted index _ _ _ => some index
  | _ => none

/-- The place of a step that is completed. -/
def completed? : Announcement → Option Nat
  | .stepCompleted index _ _ => some index
  | _ => none

/-- The size of a pipeline that is compiled. -/
def compiled? : Announcement → Option Nat
  | .compiled steps => some steps
  | _ => none

/-- The number of steps of a run that succeeds. -/
def succeeded? : Announcement → Option Nat
  | .succeeded steps => some steps
  | _ => none

/-- Whether it closes a step at a place: the step is completed or fails, or
everything is reset. -/
def Closes (index : Nat) : Announcement → Prop
  | .stepCompleted i _ _ => i = index
  | .stepFailed i _ _ => i = index
  | .reset => True
  | _ => False

/-- Whether it tells neither of a step that starts or is completed, nor of a
pipeline or a success. -/
def isPlain : Announcement → Bool
  | .stateChanged _ _ | .selected _ | .compileFailed _ | .reset => true
  | _ => false

theorem of_isPlain {x : Announcement} (h : x.isPlain) :
    x.started? = none ∧ x.completed? = none ∧ x.compiled? = none ∧ x.succeeded? = none := by
  cases x <;> first | exact ⟨rfl, rfl, rfl, rfl⟩ | cases h

end Announcement

namespace Session

/-- The states that may come directly after a state. -/
def State.successors : State → List State
  | .idle => [.awaitingConfiguration]
  | .awaitingConfiguration => [.awaitingConfiguration, .compiling, .idle]
  | .compiling => [.ready, .failed]
  | .ready => [.running, .failed, .idle]
  | .running => [.succeeded, .failed, .idle]
  | .succeeded => [.idle]
  | .failed => [.idle]

/-- The announcement of a change from one state to another. -/
def State.change (before after : State) : Announcement :=
  .stateChanged before.name after.name

/-! ## Logs -/

/-- **The changes of state in a log form a chain** from one state to another:
each starts where the one before it ended and goes to a successor, and nothing
else is asked of the log. -/
inductive Chain : State → List Announcement → State → Prop
  | nil {a : State} : Chain a [] a
  | change {a b c : State} {log : List Announcement} (hmove : b ∈ a.successors)
      (hrest : Chain b log c) : Chain a (a.change b :: log) c
  | other {a c : State} {x : Announcement} {log : List Announcement} (hx : x.change? = none)
      (hrest : Chain a log c) : Chain a (x :: log) c

/-- **Every step that is started is closed by what comes next.** -/
def Closed : List Announcement → Prop
  | [] => True
  | x :: log => (∀ index, x.started? = some index → ∃ y ∈ log.head?, y.Closes index) ∧ Closed log

theorem Chain.append {a b c : State} {log more : List Announcement} (h : Chain a log b)
    (hmore : Chain b more c) : Chain a (log ++ more) c := by
  induction h with
  | nil => exact hmore
  | change hmove _ ih => exact .change hmove (ih hmore)
  | other hx _ ih => exact .other hx (ih hmore)

theorem Closed.append {log more : List Announcement} (h : Closed log) (hmore : Closed more) :
    Closed (log ++ more) := by
  induction log with
  | nil => exact hmore
  | cons x log ih =>
    refine ⟨fun index hx => ?_, ih h.2⟩
    obtain ⟨y, hy, hcloses⟩ := h.1 index hx
    exact ⟨y, List.mem_head?_append_of_mem_head? hy, hcloses⟩

/-- Where no step is started, none is left open. -/
theorem closed_of_started {log : List Announcement}
    (h : log.filterMap Announcement.started? = []) : Closed log := by
  induction log with
  | nil => trivial
  | cons x log ih =>
    have hnone := List.filterMap_eq_nil_iff.mp h
    refine ⟨fun index hx => ?_, ih ?_⟩
    · rw [hnone x List.mem_cons_self] at hx
      cases hx
    · exact List.filterMap_eq_nil_iff.mpr fun y hy => hnone y (List.mem_cons_of_mem x hy)

/-! ## The log of a session -/

/-- What the session announced, the oldest first. -/
def log (s : Session) : List Announcement := s.journal.reverse

variable {s : Session}

theorem log_announce (a : Announcement) : (s.announce a).log = s.log ++ [a] :=
  List.reverse_cons

theorem log_enter (state : State) :
    (s.enter state).log = s.log ++ [s.state.change state] :=
  List.reverse_cons

theorem log_fail (e : Error) : (s.fail e).log = s.log ++ [s.state.change .failed] :=
  List.reverse_cons

/-- What a reset announces. -/
def State.clearing (state : State) : List Announcement :=
  .reset :: if state = .idle then [] else [state.change .idle]

theorem log_reset (s : Session) : s.reset.log = s.log ++ s.state.clearing := by
  unfold Session.reset State.clearing
  by_cases hidle : s.state = .idle
  · rw [if_pos hidle, if_pos hidle]
    exact log_announce _
  · rw [if_neg hidle, if_neg hidle, log_enter, log_announce, List.append_assoc]
    rfl

theorem log_abort (s : Session) : s.abort.log = s.log := by
  unfold Session.abort
  split <;> rfl

theorem log_abortIf (s : Session) (aborted : Bool) : (s.abortIf aborted).log = s.log := by
  cases aborted with
  | false => rfl
  | true => exact log_abort s

/-- The announcement that a step is started. -/
def started (step : CompiledStep) : Announcement :=
  .stepStarted step.index step.name step.progress.label step.progress.color

theorem log_startStep (step : CompiledStep) : (s.startStep step).log = s.log ++ [started step] :=
  log_announce _

theorem log_completeStep (step : CompiledStep) (elapsedMs : Nat) :
    (s.completeStep step elapsedMs).log =
      s.log ++ [.stepCompleted step.index step.name elapsedMs] :=
  log_announce _

theorem log_failStep (step : CompiledStep) (e : Error) :
    (s.failStep step e).log =
      s.log ++ [.stepFailed step.index step.name e.message, s.state.change .failed] := by
  refine (log_fail e).trans ?_
  rw [log_announce, List.append_assoc]
  rfl

/-! ## The course of a run -/

/-- **The course of a run over the steps that are left:** what it announces,
the state in which it ends and, where it completes all its steps, their number,
which is `total`. -/
inductive Course (total : Nat) :
    List CompiledStep → List Announcement → State → Option Nat → Prop
  | succeeded :
      Course total [] [.succeeded total, State.running.change .succeeded] .succeeded (some total)
  | completed {step : CompiledStep} {rest : List CompiledStep} {later : List Announcement}
      {state : State} {size : Option Nat} (elapsedMs : Nat)
      (hlater : Course total rest later state size) :
      Course total (step :: rest)
        (started step :: .stepCompleted step.index step.name elapsedMs :: later) state size
  | failed {step : CompiledStep} {rest : List CompiledStep} (message : String) :
      Course total (step :: rest)
        [started step, .stepFailed step.index step.name message, State.running.change .failed]
        .failed none
  | abandoned {step : CompiledStep} {rest : List CompiledStep} :
      Course total (step :: rest) [started step, .reset, State.running.change .idle] .idle none

namespace Course

variable {total : Nat} {steps : List CompiledStep} {told : List Announcement} {state : State}
  {size : Option Nat}

theorem chain (h : Course total steps told state size) : Chain .running told state := by
  induction h with
  | succeeded => exact .other rfl (.change (by decide) .nil)
  | completed elapsedMs _ ih => exact .other rfl (.other rfl ih)
  | failed message => exact .other rfl (.other rfl (.change (by decide) .nil))
  | abandoned => exact .other rfl (.other rfl (.change (by decide) .nil))

/-- **Each step that is started is closed at once.** -/
theorem closed (h : Course total steps told state size) : Closed told := by
  induction h with
  | succeeded => exact closed_of_started rfl
  | completed elapsedMs _ ih =>
    refine ⟨fun index hindex => ⟨_, rfl, ?_⟩, fun _ hindex => ?_, ih⟩
    · exact Option.some.inj hindex
    · cases hindex
  | failed message =>
    refine ⟨fun index hindex => ⟨_, rfl, ?_⟩, closed_of_started rfl⟩
    exact Option.some.inj hindex
  | abandoned => exact ⟨fun index _ => ⟨_, rfl, trivial⟩, closed_of_started rfl⟩

/-- **The steps are started in order,** from the first that is left on. -/
theorem started_eq (h : Course total steps told state size) :
    ∃ m, told.filterMap Announcement.started? = (steps.take m).map CompiledStep.index := by
  induction h with
  | succeeded => exact ⟨0, rfl⟩
  | completed elapsedMs _ ih =>
    obtain ⟨m, hm⟩ := ih
    exact ⟨m + 1, congrArg (List.cons _) hm⟩
  | failed message => exact ⟨1, rfl⟩
  | abandoned => exact ⟨1, rfl⟩

theorem compiled_eq (h : Course total steps told state size) :
    told.filterMap Announcement.compiled? = [] := by
  induction h with
  | completed elapsedMs _ ih => exact ih
  | _ => rfl

theorem succeeded_eq (h : Course total steps told state size) :
    told.filterMap Announcement.succeeded? = size.toList := by
  induction h with
  | completed elapsedMs _ ih => exact ih
  | _ => rfl

/-- **A run has a number of steps to tell where it completes all of them,** and
it then tells how many there are in total. -/
theorem size_eq_some_iff (h : Course total steps told state size) {n : Nat} :
    size = some n ↔
      n = total ∧ told.filterMap Announcement.completed? = steps.map CompiledStep.index := by
  induction h with
  | succeeded => exact ⟨fun h => ⟨(Option.some.inj h).symm, rfl⟩, fun h => congrArg some h.1.symm⟩
  | @completed step _ _ _ _ elapsedMs _ ih =>
    rw [ih]
    exact and_congr_right' (List.cons_inj_right step.index).symm
  | failed message => exact ⟨fun h => (by cases h), fun h => (by cases h.2)⟩
  | abandoned => exact ⟨fun h => (by cases h), fun h => (by cases h.2)⟩

end Course

/-! ## The run -/

/-- The number of steps that a run reports, if it succeeded. -/
def RunOutcome.size? {ω : Type} (o : RunOutcome ω) : Option Nat :=
  match o.result with
  | .ok report => some report.steps.length
  | .error _ => none

namespace Moment

variable {ω : Type} {base : Session} {m : Moment ω} {step : CompiledStep}
  {done rest : List CompiledStep}

/-- A step that was begun is told to be started, whether or not the run was
aborted. -/
theorem log_begin (e : Engine ω) (m : Moment ω) (step : CompiledStep) (aborted : Bool) :
    ((m.begin e step).session.abortIf aborted).log = m.session.log ++ [started step] := by
  rw [log_abortIf]
  unfold Moment.begin
  exact (log_abortIf _ _).trans (log_startStep step)

/-- **An outcome of a run that followed some course** over the steps left. -/
structure Followed (m : Moment ω) (total : Nat) (steps : List CompiledStep)
    (told : List Announcement) (o : RunOutcome ω) : Prop where
  log : o.session.log = m.session.log ++ told
  course : Course total steps told o.session.state o.size?

variable {total : Nat}

/-- A step during which the run is abandoned. -/
theorem Between.followed_abandon (h : m.Between base done (step :: rest)) (e : Engine ω)
    (aborted : Bool) (w : ω) :
    m.Followed total (step :: rest) [started step, .reset, State.running.change .idle]
      (abandon e ((m.begin e step).session.abortIf aborted) w) where
  log := by
    show (Session.reset _).log = _
    rw [log_reset, log_begin, ((h.begin e).abortIf aborted).state, List.append_assoc]
    rfl
  course := by
    show Course total _ _ (Session.reset _).state none
    rw [state_reset]
    exact .abandoned

/-- A step that fails. -/
theorem Between.followed_stop (h : m.Between base done (step :: rest)) (e : Engine ω)
    (cause : Error) (aborted : Bool) (w : ω) :
    m.Followed total (step :: rest)
      [started step, .stepFailed step.index step.name (stepError step cause).message,
        State.running.change .failed]
      ((m.begin e step).stop step cause aborted w) where
  log := by
    refine (log_failStep step (stepError step cause)).trans ?_
    rw [log_begin, ((h.begin e).abortIf aborted).state, List.append_assoc]
    rfl
  course := .failed (stepError step cause).message

/-- A step that is completed, and no end of the run. -/
theorem log_complete (e : Engine ω) (m : Moment ω) (step : CompiledStep) (output : Artifact)
    (elapsedMs : Nat) (aborted : Bool) (w : ω) :
    ((m.begin e step).complete step output elapsedMs aborted w).session.log =
      m.session.log ++ [started step, .stepCompleted step.index step.name elapsedMs] := by
  refine (log_completeStep step elapsedMs).trans ?_
  rw [log_begin, List.append_assoc]
  rfl

/-- With no step left, the run succeeds and tells how many steps it had. -/
theorem Between.conclude_followed (h : m.Between base done []) (hne : done ≠ []) :
    m.Followed done.length [] [.succeeded done.length, State.running.change .succeeded]
      m.conclude := by
  obtain ⟨output, hlast, -⟩ := h.conclude hne
  have hlength : m.reports.length = done.length := by
    have hmap := congrArg List.length h.reports
    rwa [List.length_map, List.length_map] at hmap
  have hconclude : m.conclude = ⟨.ok ⟨m.reports, output⟩,
      (m.session.announce (.succeeded m.reports.length)).enter .succeeded, m.world⟩ := by
    unfold Moment.conclude
    rw [hlast]
  rw [hconclude, hlength]
  refine ⟨?_, ?_⟩
  · show ((m.session.announce _).enter _).log = _
    rw [log_enter, log_announce, List.append_assoc, ← h.runs.state]
    rfl
  · show Course _ _ _ _ (some m.reports.length)
    rw [hlength]
    exact .succeeded

/-- **A run follows a course from between two steps to its end.** The induction
is over the steps that are left; each that is completed goes over to those
behind, so their total stays the same. -/
theorem Between.course (h : m.Between base done rest) (hne : done ++ rest ≠ []) (e : Engine ω) :
    ∃ told, m.Followed (done ++ rest).length rest told (m.run e rest) := by
  induction rest generalizing m done with
  | nil =>
    rw [List.append_nil] at hne ⊢
    exact ⟨_, h.conclude_followed hne⟩
  | cons step rest ih =>
    rcases turn_cases e m step with ⟨aborted, w, hturn⟩ | ⟨cause, aborted, w, hturn⟩ |
      ⟨output, elapsedMs, aborted, w, hturn⟩
    · rw [run_of_over hturn]
      exact ⟨_, h.followed_abandon e aborted w⟩
    · rw [run_of_over hturn]
      exact ⟨_, h.followed_stop e cause aborted w⟩
    · rw [run_of_on hturn]
      -- the total counts the step that was completed among those behind now
      obtain ⟨later, hlater⟩ := ih (h.complete e output elapsedMs aborted w) (by simp)
      rw [List.append_assoc] at hlater
      refine ⟨_, ?_, .completed elapsedMs hlater.course⟩
      rw [hlater.log, log_complete, List.append_assoc]
      rfl

end Moment

end Session

end MediaPipeline
