import MediaPipeline.Proofs.Session.Course
import MediaPipeline.Proofs.Session.Precision
/-!
# Session/Journal — what a session announces is what it did

The announcements are made by hand beside each change of a session, so it has
to be shown that they tell the truth. `Truthful` says what the announcements
of one operation must be: they lead from the state before it to the state
after it, close every step that they start, and report a pipeline or a success
where, and only where, the operation brought it about. A consistent session
is truthful in every operation (`Consistent.truthful`), and by induction over
the operations the whole log of a session is (`after_truthful`).
-/


namespace MediaPipeline

namespace Session

/-! ## One operation -/

/-- What an operation announces. -/
def told (s : Session) (operation : Operation) : List Announcement :=
  (s.perform operation).announcedSince s.journal.length

/-- The size of the pipeline that an operation compiles, if it compiles one. -/
def compiledBy (s : Session) : Operation → Option Nat
  | .submit =>
    match s.submit.result with
    | .ok p => some p.size
    | .error _ => none
  | _ => none

/-- The number of steps of the run that an operation completes, if it completes
one. -/
def completedBy (s : Session) : Operation → Option Nat
  | .run e intake w => (s.run e intake w).size?
  | _ => none

/-- Whether an operation is a run. -/
def Operation.isRun : Operation → Bool
  | .run _ _ _ => true
  | _ => false

/-- **What is announced by an operation tells the truth about it.** The changes
of state lead from the state before to the state after, along the lifecycle.
Only a run starts steps; they have the places 0, 1, 2 and so on, and each is
closed by what comes next. A pipeline is announced exactly where one is
compiled, with its size; a success exactly where a run completes, which is
where all steps of the pipeline are completed. -/
structure Truthful (s : Session) (operation : Operation) (told : List Announcement) : Prop where
  chain : Chain s.state told (s.perform operation).state
  closed : Closed told
  started : ∃ m, told.filterMap Announcement.started? = List.range m ∧
    m ≤ s.stepCount ∧ (0 < m → operation.isRun)
  compiled : told.filterMap Announcement.compiled? = (s.compiledBy operation).toList
  succeeded : told.filterMap Announcement.succeeded? = (s.completedBy operation).toList
  complete : ∀ n, s.completedBy operation = some n ↔
    0 < n ∧ n = s.stepCount ∧ told.filterMap Announcement.completed? = List.range n

variable {s : Session} {p : Pipeline} {operation : Operation} {told : List Announcement}

theorem told_of_log (h : (s.perform operation).log = s.log ++ told) :
    s.told operation = told := by
  have hjournal : (s.perform operation).journal = told.reverse ++ s.journal := by
    have hreverse := congrArg List.reverse h
    rwa [log, log, List.reverse_reverse, List.reverse_append, List.reverse_reverse] at hreverse
  unfold Session.told announcedSince
  rw [hjournal, List.length_append, Nat.add_sub_cancel, List.take_left, List.reverse_reverse]

/-- Where no step is started, there is nothing to say of those that are. -/
theorem started_of_none (hnone : told.filterMap Announcement.started? = []) :
    ∃ m, told.filterMap Announcement.started? = List.range m ∧ m ≤ s.stepCount ∧
      (0 < m → operation.isRun) :=
  ⟨0, hnone, Nat.zero_le _, fun hpos => absurd hpos (Nat.lt_irrefl 0)⟩

/-- Nothing is complete where no step is. -/
theorem complete_of_none (hcompleted : s.completedBy operation = none)
    (hnone : told.filterMap Announcement.completed? = []) (n : Nat) :
    s.completedBy operation = some n ↔
      0 < n ∧ n = s.stepCount ∧ told.filterMap Announcement.completed? = List.range n := by
  rw [hcompleted, hnone]
  constructor
  · intro h
    cases h
  · rintro ⟨hpos, -, hrange⟩
    rw [eq_comm, List.range_eq_nil] at hrange
    exact absurd hrange (Nat.ne_of_gt hpos)

/-- What tells of no step, no pipeline and no success is true of an operation
without them. -/
theorem Truthful.of_isPlain (hchain : Chain s.state told (s.perform operation).state)
    (hplain : told.all Announcement.isPlain) (hcompiled : s.compiledBy operation = none)
    (hcompleted : s.completedBy operation = none) : s.Truthful operation told := by
  have hnone := fun x hx => Announcement.of_isPlain (List.all_eq_true.mp hplain x hx)
  have hstarted : told.filterMap Announcement.started? = [] :=
    List.filterMap_eq_nil_iff.mpr fun x hx => (hnone x hx).1
  have hdone : told.filterMap Announcement.completed? = [] :=
    List.filterMap_eq_nil_iff.mpr fun x hx => (hnone x hx).2.1
  refine ⟨hchain, closed_of_started hstarted, started_of_none hstarted, ?_, ?_,
    complete_of_none hcompleted hdone⟩
  · rw [hcompiled]
    exact List.filterMap_eq_nil_iff.mpr fun x hx => (hnone x hx).2.2.1
  · rw [hcompleted]
    exact List.filterMap_eq_nil_iff.mpr fun x hx => (hnone x hx).2.2.2

/-- An operation tells the truth in what it adds to the log. -/
def Tells (s : Session) (operation : Operation) : Prop :=
  ∃ told, (s.perform operation).log = s.log ++ told ∧ s.Truthful operation told

/-- An operation that leaves the session as it is has nothing to tell. -/
theorem Tells.of_eq (h : s.perform operation = s) (hcompiled : s.compiledBy operation = none)
    (hcompleted : s.completedBy operation = none) : s.Tells operation := by
  refine ⟨[], by rw [h, List.append_nil], .of_isPlain ?_ rfl hcompiled hcompleted⟩
  rw [h]
  exact .nil

/-! ## Selecting, configuring and resetting -/

/-- No session is seen while it compiles. -/
theorem Consistent.state_ne_compiling (h : s.Consistent) : s.state ≠ .compiling := by
  intro hstate
  have hstanding := h.standing
  unfold Standing at hstanding
  rw [hstate] at hstanding
  exact hstanding

/-- A reset leads to the beginning from wherever a session is seen. -/
theorem chain_clearing {state : State} (h : state ≠ .compiling) :
    Chain state state.clearing .idle := by
  cases state
  case idle => exact .other rfl .nil
  case compiling => exact absurd rfl h
  all_goals exact .other rfl (.change (by decide) .nil)

theorem isPlain_clearing (state : State) : state.clearing.all Announcement.isPlain := by
  cases state <;> rfl

/-- An operation that resets the session tells of that. -/
theorem Tells.of_reset (hs : s.Consistent) (h : s.perform operation = s.reset)
    (hcompiled : s.compiledBy operation = none) (hcompleted : s.completedBy operation = none) :
    s.Tells operation := by
  refine ⟨s.state.clearing, by rw [h, log_reset],
    .of_isPlain ?_ (isPlain_clearing s.state) hcompiled hcompleted⟩
  rw [h, state_reset]
  exact chain_clearing hs.state_ne_compiling

theorem log_choose (selections : List Selection) :
    (s.choose selections).log =
      s.log ++ [.selected (selections.map (·.path)), s.state.change .awaitingConfiguration] := by
  refine (log_enter _).trans ?_
  show (s.announce _).log ++ _ = _
  rw [log_announce, List.append_assoc]
  rfl

theorem Consistent.tells_select (h : s.Consistent) (selections : List Selection) :
    s.Tells (.select selections) := by
  rcases s.select_cases selections with ⟨e, heq⟩ | ⟨-, heq⟩ | ⟨hcheck, heq⟩
  · exact .of_eq (congrArg Outcome.session heq) rfl rfl
  · exact .of_reset h (congrArg Outcome.session heq) rfl rfl
  · obtain ⟨hstate, -⟩ := checkSelections_eq_ok.mp hcheck
    have hsession : s.perform (.select selections) = s.choose selections :=
      congrArg Outcome.session heq
    refine ⟨[.selected (selections.map (·.path)), s.state.change .awaitingConfiguration], ?_,
      .of_isPlain ?_ rfl rfl rfl⟩
    · rw [hsession, log_choose]
    · rw [hsession]
      refine .other rfl (.change ?_ .nil)
      rcases hstate with hstate | hstate
      all_goals
        rw [hstate]
        decide

theorem tells_configure (s : Session) (index : Nat) (c : Configuration) :
    s.Tells (.configure index c) := by
  have hjournal : (s.configure index c).session.journal = s.journal ∧
      (s.configure index c).session.state = s.state := by
    unfold Session.configure
    split
    · exact ⟨rfl, rfl⟩
    · split
      · exact ⟨rfl, rfl⟩
      · split <;> exact ⟨rfl, rfl⟩
  refine ⟨[], ?_, .of_isPlain ?_ rfl rfl rfl⟩
  · rw [List.append_nil]
    exact congrArg List.reverse hjournal.1
  · show Chain _ [] (s.configure index c).session.state
    rw [hjournal.2]
    exact .nil

/-! ## Compiling -/

theorem log_accept (p : Pipeline) :
    (s.accept p).log = s.log ++ [.compiled p.size, s.state.change .ready] := by
  refine (log_enter _).trans ?_
  show (s.announce _).log ++ _ = _
  rw [log_announce, List.append_assoc]
  rfl

/-- Compiling leads to one of its two ends, with one announcement between. -/
theorem chain_compiling {x : Announcement} {state : State} (hx : x.change? = none)
    (hstate : state ∈ State.compiling.successors) :
    Chain .awaitingConfiguration
      [State.awaitingConfiguration.change .compiling, x, State.compiling.change state] state :=
  .change (by decide) (.other hx (.change hstate .nil))

theorem tells_submit (s : Session) : s.Tells .submit := by
  by_cases hstate : s.state = .awaitingConfiguration
  · have hsubmit := submit_of_awaiting hstate
    cases hcompiled : s.registry.compileAll s.execution.chosen s.execution.configs with
    | ok p =>
      rw [hcompiled] at hsubmit
      have hcompiles : s.compiledBy .submit = some p.size := by
        unfold compiledBy
        rw [hsubmit]
      refine ⟨[s.state.change .compiling, .compiled p.size, State.compiling.change .ready], ?_,
        ?_, closed_of_started rfl, started_of_none rfl, ?_, rfl, complete_of_none rfl rfl⟩
      · show s.submit.session.log = _
        rw [hsubmit, log_accept, log_enter, List.append_assoc]
        rfl
      · show Chain _ _ s.submit.session.state
        rw [hsubmit, hstate]
        exact chain_compiling rfl (by decide)
      · rw [hcompiles]
        rfl
    | error e =>
      rw [hcompiled] at hsubmit
      refine ⟨[s.state.change .compiling, .compileFailed e.message, State.compiling.change .failed],
        ?_, .of_isPlain ?_ rfl ?_ rfl⟩
      · show s.submit.session.log = _
        rw [hsubmit, log_fail, log_announce, log_enter, List.append_assoc, List.append_assoc]
        rfl
      · show Chain _ _ s.submit.session.state
        rw [hsubmit, hstate]
        exact chain_compiling rfl (by decide)
      · unfold compiledBy
        rw [hsubmit]
  · have hsubmit : s.submit = s.refuse (s.notNow "submit") := if_pos hstate
    refine .of_eq (congrArg Outcome.session hsubmit) ?_ rfl
    unfold compiledBy
    rw [hsubmit]
    rfl

/-! ## Running -/

variable {ω : Type}

theorem stepCount_of_pipeline (h : s.pipeline = some p) : s.stepCount = p.size := by
  unfold stepCount
  rw [h]

/-- **A run that is taken tells the truth:** it follows its course behind the
change to running. -/
theorem tells_run_of_taken {e : Engine ω} {intake : List Artifact} {w : ω}
    (hp : s.Carries p) (hready : s.state = .ready)
    (htaken : p.checkInputs (intake.map (·.mediaType)) = .ok ())
    (hbetween : (s.opening intake w).Between s [] p.steps) : s.Tells (.run e intake w) := by
  have hindex := Registry.map_index_of_compileAll hp.compiled
  have hne := Registry.ne_nil_of_compileAll hp.compiled
  have hrun : s.run e intake w = ((s.opening intake w).run e p.steps).disarm :=
    run_of_taken hready hp.pipeline htaken
  obtain ⟨told, hlog, hcourse⟩ := hbetween.course hne e
  -- turning the switch off changes neither the log nor the state nor the result
  have hperform : s.perform (.run e intake w) =
      ((s.opening intake w).run e p.steps).disarm.session := congrArg RunOutcome.session hrun
  have hcompleted : s.completedBy (.run e intake w) =
      ((s.opening intake w).run e p.steps).size? := by
    show (s.run e intake w).size? = _
    rw [hrun]
    rfl
  refine ⟨s.state.change .running :: told, ?_, ?_, ?_, ?_, ?_, ?_, fun n => ?_⟩
  · rw [hperform]
    refine hlog.trans ?_
    show (Session.enter _ _).log ++ told = _
    rw [log_enter, List.append_assoc]
    rfl
  · rw [hperform, hready]
    exact .change (by decide) hcourse.chain
  · exact (closed_of_started rfl : Closed [s.state.change .running]).append hcourse.closed
  · obtain ⟨m, hm⟩ := hcourse.started_eq
    rw [List.map_take, hindex, List.take_range] at hm
    refine ⟨_, hm, ?_, fun _ => rfl⟩
    rw [stepCount_of_pipeline hp.pipeline]
    exact Nat.min_le_right m p.size
  · exact hcourse.compiled_eq
  · rw [hcompleted]
    exact hcourse.succeeded_eq
  · -- the places of all steps are those below the size of the pipeline
    have hpos : 0 < p.size := List.length_pos_iff.mpr hne
    rw [hcompleted, hcourse.size_eq_some_iff, hindex, stepCount_of_pipeline hp.pipeline]
    constructor
    · rintro ⟨rfl, hall⟩
      exact ⟨hpos, rfl, hall⟩
    · rintro ⟨-, rfl, hall⟩
      exact ⟨rfl, hall⟩

theorem Consistent.tells_run (h : s.Consistent) (e : Engine ω) (intake : List Artifact) (w : ω) :
    s.Tells (.run e intake w) := by
  by_cases hready : s.state = .ready
  · obtain ⟨p, hp, hne, hstatuses, hcurrent⟩ := h.ready hready
    cases htaken : p.checkInputs (intake.map (·.mediaType)) with
    | error err =>
      have hrun : s.run e intake w = ⟨.error err, s.fail err, w⟩ :=
        run_of_refused hready hp.pipeline htaken
      refine ⟨[s.state.change .failed], ?_, .of_isPlain ?_ rfl rfl ?_⟩
      · show (s.run e intake w).session.log = _
        rw [hrun]
        exact log_fail err
      · show Chain _ _ (s.run e intake w).session.state
        rw [hrun, hready]
        exact .change (by decide) .nil
      · show (s.run e intake w).size? = none
        rw [hrun]
        rfl
    | ok _ =>
      exact tells_run_of_taken hp hready htaken (opening_between hstatuses hcurrent intake w)
  · have hrun : s.run e intake w = ⟨.error (s.notNow "run"), s, w⟩ := run_of_not_ready hready
    refine .of_eq (congrArg RunOutcome.session hrun) rfl ?_
    show (s.run e intake w).size? = none
    rw [hrun]
    rfl

/-! ## The whole log -/

/-- **In every operation a consistent session tells the truth.** -/
theorem Consistent.tells (h : s.Consistent) (operation : Operation) : s.Tells operation := by
  cases operation with
  | select selections => exact h.tells_select selections
  | configure index c => exact tells_configure s index c
  | submit => exact tells_submit s
  | run e intake w => exact h.tells_run e intake w
  | abort => exact .of_eq (abort_of_off h.switch) rfl rfl
  | reset => exact .of_reset h rfl rfl rfl

theorem Consistent.log_perform (h : s.Consistent) (operation : Operation) :
    (s.perform operation).log = s.log ++ s.told operation := by
  obtain ⟨told, hlog, -⟩ := h.tells operation
  rw [told_of_log hlog, hlog]

theorem Consistent.truthful (h : s.Consistent) (operation : Operation) :
    s.Truthful operation (s.told operation) := by
  obtain ⟨told, hlog, htruthful⟩ := h.tells operation
  rwa [told_of_log hlog]

/-- An operation in the life of a session: the session before it, and what it
announced. -/
structure Chapter where
  session : Session
  operation : Operation
  told : List Announcement

/-- The chapters that operations on a session make. -/
def chapters (s : Session) : List Operation → List Chapter
  | [] => []
  | operation :: rest =>
    ⟨s, operation, s.told operation⟩ :: (s.perform operation).chapters rest

/-- **What a consistent session adds to its log by operations:** what each of
them announced, one after the other. The induction is over the operations. -/
theorem Consistent.foldl_tells (h : s.Consistent) (operations : List Operation) :
    ∃ told, told = ((s.chapters operations).map Chapter.told).flatten ∧
      (operations.foldl Session.perform s).log = s.log ++ told ∧
      Chain s.state told (operations.foldl Session.perform s).state ∧ Closed told ∧
      ∀ c ∈ s.chapters operations, c.session.Truthful c.operation c.told := by
  induction operations generalizing s with
  | nil =>
    refine ⟨[], rfl, (List.append_nil _).symm, .nil, trivial, fun c hc => ?_⟩
    exact absurd hc List.not_mem_nil
  | cons operation rest ih =>
    obtain ⟨later, hlater, hlog, hchain, hclosed, hall⟩ := ih (h.perform operation)
    have hhere := h.truthful operation
    refine ⟨s.told operation ++ later, ?_, ?_, hhere.chain.append hchain,
      hhere.closed.append hclosed, List.forall_mem_cons.mpr ⟨hhere, hall⟩⟩
    · rw [hlater]
      rfl
    · rw [List.foldl_cons, hlog, h.log_perform, List.append_assoc]

/-- **The log tells the truth,** after any sequence of operations, whatever
the engines do and wherever runs are aborted. Its changes of state form a chain
from the beginning to the state of the session, each of them one that the
lifecycle allows; every step that was started is closed by the announcement
directly behind it; and the log is what the operations announced, one after the
other, each of them truthfully. -/
theorem after_truthful (id : SessionId) (r : Registry) (operations : List Operation) :
    Chain .idle (after id r operations).log (after id r operations).state ∧
      Closed (after id r operations).log ∧
      (after id r operations).log =
        (((start id r).chapters operations).map Chapter.told).flatten ∧
      ∀ c ∈ (start id r).chapters operations, c.session.Truthful c.operation c.told := by
  obtain ⟨told, htold, hlog, hchain, hclosed, hall⟩ :=
    (consistent_start id r).foldl_tells operations
  have hlog : (after id r operations).log = told := hlog
  rw [hlog]
  exact ⟨hchain, hclosed, htold, hall⟩

example : (shortFilmSession.run obliging film ()).session.log =
    [.selected ["Features/Grayscale"], .stateChanged "Idle" "AwaitingConfiguration",
      .stateChanged "AwaitingConfiguration" "Compiling", .compiled 1,
      .stateChanged "Compiling" "Ready", .stateChanged "Ready" "Running",
      .stepStarted 0 "Grayscale" "Removing Color ..." "#7F8C8D",
      .stepCompleted 0 "Grayscale" 1, .succeeded 1, .stateChanged "Running" "Succeeded"] := by cbv

end Session

end MediaPipeline
