import MediaPipeline.Proofs.Session.Calls
import MediaPipeline.Proofs.Workspace
import MediaPipeline.Transcoder
/-!
# Transcoder/Outputs — what the steps of a run return, one after the other

What the transcoder returns for a request does not depend on the host: it is
the path that was chosen beforehand, with the type of the step (`output`). So
what the steps of a run return is told by the intake and the steps alone, each
step being handed what the one before it returned (`outputs`); and a run that
succeeds returns just that (`outputs_of_run`), whatever time the tool takes,
and also where an abort comes too late.
-/


namespace MediaPipeline

namespace Transcoder

variable {t : Transcoder} {s : Session} {r : Request} {host : Host} {a before : Artifact}
variable {inputs : List Artifact} {step : CompiledStep} {steps : List CompiledStep} {k : Nat}

/-! ## One step -/

/-- What the transcoder returns for a request, where the tool succeeds. -/
def output (t : Transcoder) (r : Request) : Artifact where
  path := t.workspace.outputPath r.session r.index (outputExtension r)
  mediaType := r.outputType

theorem path_output (t : Transcoder) (r : Request) :
    (t.output r).path = t.workspace.outputPath r.session r.index (outputExtension r) := by
  unfold output
  dsimp only

/-- **The transcoder returns the path that it chose.** -/
theorem output_of_perform (h : (t.perform r host).1 = .ok a) : a = t.output r := by
  unfold perform at h
  split at h
  · cases h
  · rename_i chosen files hchosen
    have hpath : chosen = t.workspace.outputPath r.session r.index (outputExtension r) :=
      Workspace.path_of_stepOutput hchosen
    split at h
    · unfold output
      rw [← hpath]
      exact (Except.ok.inj h).symm
    · cases h

/-- **An engine that the transcoder drives.** Where it finishes a request, the
result is the transcoder's on some host. The time that this takes is left open,
and so is when the run is aborted. -/
def Drives {ω : Type} (t : Transcoder) (e : Engine ω) : Prop :=
  ∀ (r : Request) (w : ω) (result : Except Error Artifact) (elapsedMs : Nat) (aborted : Bool),
    (e.call r w).1 = .finished result elapsedMs aborted → ∃ host, result = (t.perform r host).1

theorem engine_call (t : Transcoder) (r : Request) (host : Host) :
    t.engine.call r host = (.finished (t.perform r host).1 0 false, (t.perform r host).2) := by
  unfold engine
  dsimp only

theorem drives_engine (t : Transcoder) : t.Drives t.engine := by
  intro r w result elapsedMs aborted h
  rw [engine_call] at h
  exact ⟨w, (Reply.finished.inj h).1.symm⟩

/-! ## Step after step -/

/-- What the steps of a session return, each handed what the one before it
returned. -/
def outputs (t : Transcoder) (s : Session) : List Artifact → List CompiledStep → List Artifact
  | _, [] => []
  | inputs, step :: rest =>
    let output := t.output (s.request step inputs)
    output :: t.outputs s [output] rest

@[simp] theorem length_outputs (t : Transcoder) (s : Session) (inputs : List Artifact)
    (steps : List CompiledStep) : (t.outputs s inputs steps).length = steps.length := by
  induction steps generalizing inputs with
  | nil => rfl
  | cons step rest ih => exact congrArg Nat.succ (ih _)

/-- The first step is handed the inputs. -/
theorem getElem?_outputs_zero :
    (t.outputs s inputs steps)[0]? = steps[0]?.map fun step => t.output (s.request step inputs) := by
  cases steps <;> rfl

/-- Every other step is handed what the one before it returned. -/
theorem getElem?_outputs_succ (h : (t.outputs s inputs steps)[k]? = some before) :
    (t.outputs s inputs steps)[k + 1]? =
      steps[k + 1]?.map fun step => t.output (s.request step [before]) := by
  induction steps generalizing inputs k with
  | nil => exact absurd h (by simp [outputs])
  | cons step rest ih =>
    cases k with
    | zero =>
      rw [← Option.some.inj h]
      exact getElem?_outputs_zero
    | succ k => exact ih h

/-- Every output is that of the step at its place, for some inputs. -/
theorem exists_request (h : (t.outputs s inputs steps)[k]? = some a) :
    ∃ step handed, steps[k]? = some step ∧ a = t.output (s.request step handed) := by
  cases k with
  | zero =>
    rw [getElem?_outputs_zero] at h
    obtain ⟨step, hstep, rfl⟩ := Option.map_eq_some_iff.mp h
    exact ⟨step, inputs, hstep, rfl⟩
  | succ k =>
    have hk : k < (t.outputs s inputs steps).length :=
      Nat.lt_of_succ_lt (List.getElem?_eq_some_iff.mp h).1
    rw [getElem?_outputs_succ (List.getElem?_eq_getElem hk)] at h
    obtain ⟨step, hstep, rfl⟩ := Option.map_eq_some_iff.mp h
    exact ⟨step, _, hstep, rfl⟩

/-- The requests of a session tell the session. -/
theorem request_of_id {s' : Session} (h : s'.id = s.id) (step : CompiledStep) :
    s'.request step inputs = s.request step inputs := by
  unfold Session.request
  rw [h]

/-! ## A turn -/

/-- Nothing aborts a run before a step. -/
theorem begin_engine (t : Transcoder) (m : Session.Moment Host) (step : CompiledStep) :
    m.begin t.engine step = { m with session := m.session.startStep step } := by
  unfold Session.Moment.begin engine
  rfl

/-- **A step that the tool succeeds at** leads on, with its output. -/
theorem exists_next_of_perform {m : Session.Moment Host} {after : Host}
    (rest : List CompiledStep) (hswitch : m.session.switch = .armed)
    (h : t.perform (m.session.request step m.inputs) m.world = (.ok a, after)) :
    ∃ next : Session.Moment Host, m.run t.engine (step :: rest) = next.run t.engine rest ∧
      next.session.id = m.session.id ∧ next.session.switch = .armed ∧ next.inputs = [a] ∧
      next.world = after := by
  have hbegun : (m.begin t.engine step).session.switch = .armed := by
    rw [begin_engine]
    exact hswitch
  have hpulled : (m.begin t.engine step).session.switch ≠ .pulled := by
    rw [hbegun]
    exact Session.Switch.noConfusion
  have hcall : t.engine.call ((m.begin t.engine step).session.request step m.inputs)
      (m.begin t.engine step).world = (.finished (.ok a) 0 false, after) := by
    rw [begin_engine, engine_call]
    show (Reply.finished (t.perform (m.session.request step m.inputs) m.world).1 0 false,
      (t.perform (m.session.request step m.inputs) m.world).2) = _
    rw [h]
  refine ⟨_, Session.Moment.run_of_on (Session.Moment.turn_of_call hpulled hcall), ?_, hbegun,
    rfl, rfl⟩
  exact congrArg Prod.fst (Session.Moment.origin_begin t.engine m step)

/-! ## A run -/

section Run

variable {ω : Type} {e : Engine ω} {m : Session.Moment ω} {report : Session.Report}

/-- What a call returned is the output that it asked for. -/
theorem output_of_answer {c : Session.Call} {w : ω} (he : t.Drives e)
    (hanswer : c.reply = (e.call c.request w).1) (h : c.output? = some a) :
    a = t.output c.request := by
  unfold Session.Call.output? at h
  split at h
  · rename_i output elapsedMs aborted hreply
    cases h
    obtain ⟨host, hperform⟩ := he _ _ _ _ _ (hanswer.symm.trans hreply)
    exact output_of_perform hperform.symm
  · cases h

/-- The call of a step asks for what the session asks for that the run is of. -/
theorem request_call (hid : m.session.id = s.id) (step : CompiledStep) :
    ((m.begin e step).call e step).request = s.request step m.inputs :=
  request_of_id ((congrArg Prod.fst (Session.Moment.origin_begin e m step)).trans hid) step

/-- **A turn that leads on** hands on the output of its step. -/
theorem handed_on {next : Session.Moment ω} (he : t.Drives e) (hid : m.session.id = s.id)
    (hturn : m.turn e step = .on next) :
    (m.begin e step).session.switch ≠ .pulled ∧
      ((m.begin e step).call e step).output? = some (t.output (s.request step m.inputs)) ∧
      next.inputs = [t.output (s.request step m.inputs)] ∧ next.session.id = s.id := by
  obtain ⟨hpulled, output, houtput, hinputs, horigin⟩ :=
    Session.Moment.exists_output_of_on hturn
  have hasked : output = t.output ((m.begin e step).call e step).request :=
    output_of_answer he rfl houtput
  rw [request_call hid step] at hasked
  rw [← hasked]
  exact ⟨hpulled, houtput, hinputs, (congrArg Prod.fst horigin).trans hid⟩

/-- **What the calls of a run return that succeeds.** The induction is over the
steps that are left. Only a call that returned an output leads on to them; every
other turn ends the run with an error. -/
theorem outputs_of_moment (he : t.Drives e) (hid : m.session.id = s.id)
    (hrun : (m.run e steps).result = .ok report) :
    (m.calls e steps).map Session.Call.output? = (t.outputs s m.inputs steps).map some ∧
      (m.inputs ++ t.outputs s m.inputs steps).getLast? = some report.output := by
  induction steps generalizing m with
  | nil =>
    refine ⟨rfl, ?_⟩
    replace hrun : m.conclude.result = .ok report := hrun
    unfold Session.Moment.conclude at hrun
    unfold outputs
    rw [List.append_nil]
    cases hlast : m.inputs.getLast? with
    | none =>
      rw [hlast] at hrun
      cases hrun
    | some last =>
      rw [hlast] at hrun
      cases hrun
      rfl
  | cons step rest ih =>
    rcases hturn : m.turn e step with o | next
    · rw [Session.Moment.run_of_over hturn] at hrun
      obtain ⟨error, herror⟩ := Session.Moment.exists_error_of_over hturn
      cases herror.symm.trans hrun
    · obtain ⟨hpulled, houtput, hinputs, hnext⟩ := handed_on he hid hturn
      rw [Session.Moment.run_of_on hturn] at hrun
      obtain ⟨hcalls, hlast⟩ := ih hnext hrun
      rw [hinputs] at hcalls hlast
      constructor
      · rw [Session.Moment.calls_of_on hpulled hturn, List.map_cons, houtput, hcalls]
        rfl
      · exact (List.getLast?_append_cons _ _ _).trans hlast

/-- **What the calls of a run of a session return that succeeds.** -/
theorem outputs_of_run {p : Pipeline} {intake : List Artifact} {w : ω} (he : t.Drives e)
    (hp : s.pipeline = some p) (hrun : (s.run e intake w).result = .ok report) :
    (s.calls e intake w).map Session.Call.output? = (t.outputs s intake p.steps).map some ∧
      (intake ++ t.outputs s intake p.steps).getLast? = some report.output := by
  by_cases hready : s.state = .ready
  · cases htaken : p.checkInputs (intake.map (·.mediaType)) with
    | error err =>
      rw [Session.run_of_refused hready hp htaken] at hrun
      cases hrun
    | ok _ =>
      rw [Session.run_of_taken hready hp htaken] at hrun
      rw [Session.calls_of_taken hready hp htaken]
      exact outputs_of_moment he rfl hrun
  · rw [Session.run_of_not_ready hready] at hrun
    cases hrun

end Run

end Transcoder

end MediaPipeline
