import MediaPipeline.Proofs.Pipeline
import MediaPipeline.Proofs.Session.Turns
/-!
# Session/Calls — what a run asks of its engine

`calls` lists the requests that a run makes, in order, each with the session
at that moment and the reply. It is told beside the run, so it has to be
checked against it: `Engine.logged` is an engine that writes down itself what
it is asked, and a run with it is the same run, with a log that holds the
calls and, where the run was aborted, the clearing up (`run_logged`). A turn
leads on only from a call that returned an output, which it hands on
(`exists_output_of_on`); any other turn ends the run with an error.
-/


namespace MediaPipeline

/-- What passes between a session and its engine. -/
inductive Exchange where
  | called (request : Request) (reply : Reply)
  | abandoned (session : SessionId)

/-- An engine that keeps a log of what it is asked, the oldest first. -/
def Engine.logged {ω : Type} (e : Engine ω) : Engine (ω × List Exchange) where
  abortsBefore request w :=
    let (aborted, next) := e.abortsBefore request w.1
    (aborted, next, w.2)
  call request w :=
    let (reply, next) := e.call request w.1
    (reply, next, w.2 ++ [.called request reply])
  abandon session w := (e.abandon session w.1, w.2 ++ [.abandoned session])

namespace Session

/-- A request of a run: the session at the moment of it, and its reply. -/
structure Call where
  session : Session
  request : Request
  reply : Reply

namespace Call

/-- What the engine sees of a call. -/
def exchange (c : Call) : Exchange := .called c.request c.reply

/-- What a call returned. -/
def output? (c : Call) : Option Artifact :=
  match c.reply with
  | .finished (.ok output) _ _ => some output
  | _ => none

end Call

namespace Moment

variable {ω : Type}

/-- The call for a step that was begun. -/
def call (e : Engine ω) (m : Moment ω) (step : CompiledStep) : Call where
  session := m.session
  request := m.session.request step m.inputs
  reply := (e.call (m.session.request step m.inputs) m.world).1

/-- The calls of a run over the steps that are left. -/
def calls (e : Engine ω) (m : Moment ω) : List CompiledStep → List Call
  | [] => []
  | step :: rest =>
    let begun := m.begin e step
    if begun.session.switch = .pulled then []
    else
      begun.call e step ::
        match m.turn e step with
        | .over _ => []
        | .on next => next.calls e rest

end Moment

/-- The calls of a run over an intake. -/
def calls {ω : Type} (e : Engine ω) (s : Session) (intake : List Artifact) (w : ω) : List Call :=
  if s.state ≠ .ready then []
  else
    match s.pipeline with
    | none => []
    | some p =>
      match p.checkInputs (intake.map (·.mediaType)) with
      | .error _ => []
      | .ok () => (s.opening intake w).calls e p.steps

section Calls

variable {ω : Type} {s : Session} {p : Pipeline} {e : Engine ω} {intake : List Artifact} {w : ω}

theorem calls_of_refused {err : Error} (hready : s.state = .ready) (hp : s.pipeline = some p)
    (herr : p.checkInputs (intake.map (·.mediaType)) = .error err) :
    s.calls e intake w = [] := by
  unfold Session.calls
  rw [if_neg (not_not.mpr hready), hp]
  dsimp only
  rw [herr]

theorem calls_of_taken (hready : s.state = .ready) (hp : s.pipeline = some p)
    (htaken : p.checkInputs (intake.map (·.mediaType)) = .ok ()) :
    s.calls e intake w = (s.opening intake w).calls e p.steps := by
  unfold Session.calls
  rw [if_neg (not_not.mpr hready), hp]
  dsimp only
  rw [htaken]

end Calls

/-! ## The log of a run -/

section Logged

variable {ω : Type} {e : Engine ω}

theorem logged_call {request : Request} {w w' : ω} {reply : Reply} {log : List Exchange}
    (h : e.call request w = (reply, w')) :
    e.logged.call request (w, log) = (reply, w', log ++ [.called request reply]) := by
  unfold Engine.logged
  simp only [h]

/-- A moment of a run whose engine has written a log so far. -/
def Moment.logging (m : Moment ω) (log : List Exchange) : Moment (ω × List Exchange) where
  session := m.session
  inputs := m.inputs
  reports := m.reports
  world := (m.world, log)

/-- The outcome of a run whose engine has written a log. -/
def RunOutcome.logging (o : RunOutcome ω) (log : List Exchange) :
    RunOutcome (ω × List Exchange) where
  result := o.result
  session := o.session
  world := (o.world, log)

/-- The clearing up after a run, if it was aborted. -/
def RunOutcome.clearing (o : RunOutcome ω) : List Exchange :=
  match o.result with
  | .error .cancelled => [.abandoned o.session.id]
  | _ => []

@[simp] theorem id_reset (s : Session) : s.reset.id = s.id := congrArg Prod.fst s.origin_reset

theorem clearing_abandon (s : Session) (w : ω) :
    (abandon e s w).clearing = [.abandoned s.id] := by
  show [Exchange.abandoned s.reset.id] = _
  rw [id_reset]

theorem abandon_logged (s : Session) (w : ω) (log : List Exchange) :
    abandon e.logged s (w, log) =
      (abandon e s w).logging (log ++ (abandon e s w).clearing) := by
  rw [clearing_abandon]
  rfl

/-- The failure of a step is never taken for an abort. -/
theorem exists_stepError (step : CompiledStep) (cause : Error) :
    ∃ index feature reason, stepError step cause = .engine index feature reason := by
  unfold stepError
  cases cause <;> exact ⟨_, _, _, rfl⟩

namespace Moment

variable {m : Moment ω} {log : List Exchange} {step : CompiledStep} {rest : List CompiledStep}

theorem exchange_call {m : Moment ω} {reply : Reply} {w : ω}
    (h : e.call (m.session.request step m.inputs) m.world = (reply, w)) :
    (m.call e step).exchange = .called (m.session.request step m.inputs) reply := by
  unfold Moment.call Call.exchange
  rw [h]

theorem calls_of_pulled (h : (m.begin e step).session.switch = .pulled) :
    m.calls e (step :: rest) = [] := by
  unfold Moment.calls
  exact if_pos h

theorem calls_of_over {o : RunOutcome ω} (h : (m.begin e step).session.switch ≠ .pulled)
    (hturn : m.turn e step = .over o) :
    m.calls e (step :: rest) = [(m.begin e step).call e step] := by
  rw [Moment.calls]
  simp only [if_neg h, hturn]

theorem calls_of_on {next : Moment ω} (h : (m.begin e step).session.switch ≠ .pulled)
    (hturn : m.turn e step = .on next) :
    m.calls e (step :: rest) = (m.begin e step).call e step :: next.calls e rest := by
  rw [Moment.calls]
  simp only [if_neg h, hturn]

/-- **A turn that leads on made a call,** and hands on what that returned. -/
theorem exists_output_of_on {next : Moment ω} (hturn : m.turn e step = .on next) :
    (m.begin e step).session.switch ≠ .pulled ∧
      ∃ output, ((m.begin e step).call e step).output? = some output ∧
        next.inputs = [output] ∧ next.session.origin = m.session.origin := by
  by_cases hpulled : (m.begin e step).session.switch = .pulled
  · rw [turn_of_pulled hpulled] at hturn
    cases hturn
  · refine ⟨hpulled, ?_⟩
    rcases hcall : e.call ((m.begin e step).session.request step m.inputs)
      (m.begin e step).world with ⟨reply, w⟩
    have hreply : ((m.begin e step).call e step).reply = reply := congrArg Prod.fst hcall
    rw [turn_of_call hpulled hcall] at hturn
    unfold Call.output?
    rw [hreply]
    cases reply with
    | interrupted => cases hturn
    | finished result elapsedMs aborted =>
      cases result with
      | error cause => cases hturn
      | ok output =>
        cases hturn
        exact ⟨output, rfl, rfl, (origin_abortIf _ _).trans (origin_begin e m step)⟩

/-- Where a turn with a call ends the run, the call returned no output. -/
theorem output?_of_over {o : RunOutcome ω} (hpulled : (m.begin e step).session.switch ≠ .pulled)
    (hturn : m.turn e step = .over o) : ((m.begin e step).call e step).output? = none := by
  rcases hcall : e.call ((m.begin e step).session.request step m.inputs)
    (m.begin e step).world with ⟨reply, w⟩
  have hreply : ((m.begin e step).call e step).reply = reply := congrArg Prod.fst hcall
  rw [turn_of_call hpulled hcall] at hturn
  unfold Call.output?
  rw [hreply]
  cases reply with
  | interrupted => rfl
  | finished result elapsedMs aborted =>
    cases result with
    | error cause => rfl
    | ok output => cases hturn

/-- A turn that ends the run ends it with an error. -/
theorem exists_error_of_over {o : RunOutcome ω} (hturn : m.turn e step = .over o) :
    ∃ error, o.result = .error error := by
  rcases turn_cases e m step with ⟨aborted, w, h⟩ | ⟨cause, aborted, w, h⟩ |
    ⟨output, elapsedMs, aborted, w, h⟩
  · cases hturn.symm.trans h
    exact ⟨_, rfl⟩
  · cases hturn.symm.trans h
    exact ⟨_, rfl⟩
  · cases hturn.symm.trans h

/-- **The reply of a call is what the engine answers,** in some world. -/
theorem exists_answer_of_mem_calls {steps : List CompiledStep} {c : Call}
    (h : c ∈ m.calls e steps) : ∃ w, c.reply = (e.call c.request w).1 := by
  induction steps generalizing m with
  | nil => cases h
  | cons step rest ih =>
    by_cases hpulled : (m.begin e step).session.switch = .pulled
    · rw [calls_of_pulled hpulled] at h
      cases h
    · rcases hturn : m.turn e step with o | next
      · rw [calls_of_over hpulled hturn] at h
        rw [List.mem_singleton.mp h]
        exact ⟨_, rfl⟩
      · rw [calls_of_on hpulled hturn] at h
        rcases List.mem_cons.mp h with rfl | h
        · exact ⟨_, rfl⟩
        · exact ih h

theorem clearing_stop (cause : Error) (aborted : Bool) (w : ω) :
    (m.stop step cause aborted w).clearing = [] := by
  obtain ⟨index, feature, reason, hfailure⟩ := exists_stepError step cause
  unfold RunOutcome.clearing Moment.stop
  rw [hfailure]

theorem clearing_conclude : m.conclude.clearing = [] := by
  unfold Moment.conclude
  cases m.inputs.getLast? <;> rfl

theorem conclude_logged : (m.logging log).conclude = m.conclude.logging log := by
  have hinputs : (m.logging log).inputs = m.inputs := rfl
  unfold Moment.conclude
  rw [hinputs]
  cases m.inputs.getLast? <;> rfl

/-- **A run with the engine that keeps a log is the same run,** and the log
grows by the calls and the clearing up. The induction is over the steps that
are left, for every log so far. -/
theorem run_logged (m : Moment ω) (steps : List CompiledStep) (log : List Exchange) :
    (m.logging log).run e.logged steps =
      (m.run e steps).logging
        (log ++ (m.calls e steps).map Call.exchange ++ (m.run e steps).clearing) := by
  induction steps generalizing m log with
  | nil =>
    show (m.logging log).conclude = m.conclude.logging (log ++ [] ++ m.conclude.clearing)
    rw [clearing_conclude, List.append_nil, List.append_nil, conclude_logged]
  | cons step rest ih =>
    by_cases hpulled : (m.begin e step).session.switch = .pulled
    · have hturn := turn_of_pulled hpulled
      have hlogged := turn_of_pulled (m := m.logging log) (e := e.logged) hpulled
      rw [run_of_over hturn, run_of_over hlogged, calls_of_pulled hpulled, List.map_nil,
        List.append_nil]
      exact abandon_logged _ _ log
    · rcases hcall : e.call ((m.begin e step).session.request step m.inputs)
        (m.begin e step).world with ⟨reply, w⟩
      -- both engines give the same reply, and the one world is part of the other
      have hturn := turn_of_call hpulled hcall
      have hlogged := turn_of_call (m := m.logging log) (e := e.logged) hpulled
        (logged_call hcall)
      have hexchange := exchange_call hcall
      cases reply with
      | interrupted =>
        rw [run_of_over hturn, run_of_over hlogged, calls_of_over hpulled hturn,
          List.map_singleton, hexchange]
        exact abandon_logged _ _ _
      | finished result elapsedMs aborted =>
        cases result with
        | ok output =>
          have hnext : (m.logging log).turn e.logged step =
              .on (((m.begin e step).complete step output elapsedMs aborted w).logging
                (log ++ [.called ((m.begin e step).session.request step m.inputs)
                  (.finished (.ok output) elapsedMs aborted)])) := hlogged
          rw [run_of_on hturn, run_of_on hnext, ih, calls_of_on hpulled hturn, List.map_cons,
            hexchange, ← List.append_cons]
          rfl
        | error cause =>
          rw [run_of_over hturn, run_of_over hlogged, calls_of_over hpulled hturn,
            List.map_singleton, hexchange, clearing_stop, List.append_nil]
          rfl

end Moment

theorem exists_answer_of_mem_calls {s : Session} {intake : List Artifact} {w : ω} {c : Call}
    (h : c ∈ s.calls e intake w) : ∃ w', c.reply = (e.call c.request w').1 := by
  unfold Session.calls at h
  split at h
  · cases h
  · split at h
    · cases h
    · split at h
      · cases h
      · exact Moment.exists_answer_of_mem_calls h

/-- **A run of a session with the engine that keeps a log.** -/
theorem run_logged (s : Session) (intake : List Artifact) (w : ω) (log : List Exchange) :
    s.run e.logged intake (w, log) =
      (s.run e intake w).logging
        (log ++ (s.calls e intake w).map Call.exchange ++ (s.run e intake w).clearing) := by
  -- where the run does not begin, nothing is asked of the engine
  have hquiet : ∀ (o : RunOutcome ω), o.clearing = [] →
      o.logging log = o.logging (log ++ [].map Call.exchange ++ o.clearing) := by
    intro o ho
    rw [ho, List.map_nil, List.append_nil, List.append_nil]
  unfold Session.run Session.calls
  by_cases hstate : s.state ≠ .ready
  · rw [if_pos hstate, if_pos hstate, if_pos hstate]
    exact hquiet ⟨_, s, w⟩ rfl
  · rw [if_neg hstate, if_neg hstate, if_neg hstate]
    cases s.pipeline with
    | none => exact hquiet ⟨_, s, w⟩ rfl
    | some p =>
      dsimp only
      cases hcheck : p.checkInputs (intake.map (·.mediaType)) with
      | error err =>
        obtain ⟨first, why, -, -, rfl⟩ := Pipeline.checkInputs_eq_error.mp hcheck
        exact hquiet ⟨_, s.fail _, w⟩ rfl
      | ok _ =>
        have hrun := (s.opening intake w).run_logged (e := e) p.steps log
        exact congrArg RunOutcome.disarm hrun

end Logged

end Session

end MediaPipeline
