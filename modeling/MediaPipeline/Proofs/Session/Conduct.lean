import Mathlib.Data.List.Permutation
import MediaPipeline.Proofs.Session.Calls
import MediaPipeline.Proofs.Session.Consistency

-- Mathlib.Data.List.Permutation holds the equation of `Prod.snd` by which `cbv`
-- evaluates; without it each module would derive that equation again.

/-!
# Session/Conduct — how a run proceeds that nobody aborts

A run asks its engine for one step after the other. `Conducted` says how:
which step each call is for, what it is handed, and how the session stands
at that moment. `Ending` says what may come of it: the first step refuses the
intake, all steps are completed, or one fails. `Midway` carries both through
the run, with the calls made so far, and `Midway.run` is the induction over
the steps that are left.
-/


namespace MediaPipeline

/-- An engine that answers every request, and never reports an abort. -/
structure Engine.Uninterrupted {ω : Type} (e : Engine ω) : Prop where
  before : ∀ request w, (e.abortsBefore request w).1 = false
  answers : ∀ request w, ∃ result elapsedMs, (e.call request w).1 = .finished result elapsedMs false

namespace Session

/-! ## The calls -/

/-- **The call for a step, at its place.** It carries what belongs to the
step; the session runs this step, those before it are done, and those behind
it are pending. -/
structure Call.MadeFor (s : Session) (p : Pipeline) (k : Nat) (step : CompiledStep)
    (call : Call) : Prop where
  session : call.request.session = s.id
  index : call.request.index = k
  feature : call.request.feature = step.name
  command : call.request.command = step.command
  outputType : call.request.outputType = step.outputType
  running : call.session.state = .running
  current : call.session.execution.currentStep = some k
  statuses : call.session.execution.progress.entries =
    marked .done (p.steps.take k) ++ (k, .running) :: marked .pending (p.steps.drop (k + 1))

/-- **Calls as a run makes them:** one for each step, in order, from the first
on. The first call is handed the intake, and every other one what the call
before it returned. -/
structure Conducted (s : Session) (p : Pipeline) (intake : List Artifact) (calls : List Call) :
    Prop where
  each : ∀ (k : Nat) (call : Call), calls[k]? = some call →
    ∃ step, p.steps[k]? = some step ∧ call.MadeFor s p k step
  first : ∀ call, calls[0]? = some call → call.request.inputs = intake
  later : ∀ (k : Nat) (call : Call), calls[k + 1]? = some call →
    ∃ before output, calls[k]? = some before ∧ before.output? = some output ∧
      call.request.inputs = [output]

/-- What is handed on after some calls. -/
def Handed (intake : List Artifact) (past : List Call) (inputs : List Artifact) : Prop :=
  match past.getLast? with
  | none => inputs = intake
  | some call => ∃ output, call.output? = some output ∧ inputs = [output]

theorem getElem?_concat_eq_some {α : Type} {l : List α} {a b : α} {k : Nat} :
    (l ++ [a])[k]? = some b ↔ l[k]? = some b ∨ k = l.length ∧ a = b := by
  rcases Nat.lt_trichotomy k l.length with hlt | rfl | hgt
  · rw [List.getElem?_append_left hlt]
    simp [Nat.ne_of_lt hlt]
  · simp
  · rw [List.getElem?_eq_none (by simp; omega), List.getElem?_eq_none (by omega)]
    simp [Nat.ne_of_gt hgt]

section Conducted

variable {s : Session} {p : Pipeline} {intake : List Artifact} {past : List Call} {call : Call}
  {step : CompiledStep}

theorem conducted_nil : Conducted s p intake [] where
  each k call h := by simp at h
  first call h := by simp at h
  later k call h := by simp at h

/-- One call more. -/
theorem Conducted.concat (h : Conducted s p intake past)
    (hstep : p.steps[past.length]? = some step) (hmade : call.MadeFor s p past.length step)
    (hinputs : Handed intake past call.request.inputs) :
    Conducted s p intake (past ++ [call]) where
  each k c hc := by
    rcases getElem?_concat_eq_some.mp hc with hc | ⟨rfl, rfl⟩
    · exact h.each k c hc
    · exact ⟨step, hstep, hmade⟩
  first c hc := by
    rcases getElem?_concat_eq_some.mp hc with hc | ⟨hlength, rfl⟩
    · exact h.first c hc
    · have hnil : past = [] := List.eq_nil_of_length_eq_zero hlength.symm
      rw [hnil] at hinputs
      exact hinputs
  later k c hc := by
    rcases getElem?_concat_eq_some.mp hc with hc | ⟨hlength, rfl⟩
    · obtain ⟨before, output, hbefore, houtput, heq⟩ := h.later k c hc
      exact ⟨before, output, getElem?_concat_eq_some.mpr (.inl hbefore), houtput, heq⟩
    · -- the call before the new one is the last so far, whose output is handed on
      have hlast : past.getLast? = past[k]? := by
        rw [List.getLast?_eq_getElem?]
        congr 1
        omega
      have hk : k < past.length := by omega
      unfold Handed at hinputs
      rw [hlast, List.getElem?_eq_getElem hk] at hinputs
      obtain ⟨output, houtput, heq⟩ := hinputs
      exact ⟨past[k], output, getElem?_concat_eq_some.mpr (.inl (List.getElem?_eq_getElem hk)),
        houtput, heq⟩

end Conducted

/-! ## The endings -/

section Endings

variable {ω : Type}

/-- The first step refuses the intake; the engine is not asked for anything. -/
structure Refused (p : Pipeline) (intake : List Artifact) (calls : List Call)
    (o : RunOutcome ω) : Prop where
  calls : calls = []
  result : ∃ first why, p.steps.head? = some first ∧
    first.intake.checkAll (intake.map (·.mediaType)) = .error why ∧
    o.result = .error (.unsupportedInput first.index first.name why.message)
  state : o.session.state = .failed

/-- There is a call for each step, and all are answered; the report lists the
steps, and its output is what the last call returned. -/
structure Completed (p : Pipeline) (intake : List Artifact) (calls : List Call)
    (o : RunOutcome ω) : Prop where
  taken : p.checkInputs (intake.map (·.mediaType)) = .ok ()
  length : calls.length = p.size
  answered : ∀ call ∈ calls, ∃ output, call.output? = some output
  report : ∃ report, o.result = .ok report ∧
    report.steps.map (fun entry => (entry.index, entry.feature)) =
      p.steps.map (fun step => (step.index, step.name)) ∧
    calls.getLast?.bind Call.output? = some report.output
  state : o.session.state = .succeeded
  statuses : o.session.execution.progress.entries = marked .done p.steps

/-- The call for the step at `k` is the first that fails, and the last that
is made; its failure is told as the engine's. -/
structure StoppedAt (k : Nat) (p : Pipeline) (intake : List Artifact) (calls : List Call)
    (o : RunOutcome ω) : Prop where
  taken : p.checkInputs (intake.map (·.mediaType)) = .ok ()
  length : calls.length = k + 1
  answered : ∀ call ∈ calls.take k, ∃ output, call.output? = some output
  failure : ∃ step call cause elapsedMs, p.steps[k]? = some step ∧ calls[k]? = some call ∧
    call.reply = .finished (.error cause) elapsedMs false ∧
    o.result = .error (stepError step cause)
  engine : ∃ index feature reason, o.result = .error (.engine index feature reason)
  state : o.session.state = .failed
  statuses : o.session.execution.progress.entries =
    marked .done (p.steps.take k) ++ (k, .failed) :: marked .pending (p.steps.drop (k + 1))

/-- What may come of a run that nobody aborts. -/
inductive Ending where
  | refused
  | completed
  | stoppedAt (k : Nat)

/-- Whether a run, with these calls and this outcome, ended so. -/
def Ending.Describes (p : Pipeline) (intake : List Artifact) (calls : List Call)
    (o : RunOutcome ω) : Ending → Prop
  | .refused => Refused p intake calls o
  | .completed => Completed p intake calls o
  | .stoppedAt k => StoppedAt k p intake calls o

variable {p : Pipeline} {intake : List Artifact} {calls : List Call} {o : RunOutcome ω}
  {ending : Ending}

/-- Each ending has a result of its own kind. -/
theorem Ending.Describes.kind (h : ending.Describes p intake calls o) :
    (ending = .refused ∧ ∃ step feature reason,
        o.result = .error (.unsupportedInput step feature reason)) ∨
      (ending = .completed ∧ ∃ report, o.result = .ok report) ∨
      (ending = .stoppedAt (calls.length - 1) ∧ ∃ step feature reason,
        o.result = .error (.engine step feature reason)) := by
  cases ending with
  | refused =>
    obtain ⟨first, why, -, -, hresult⟩ := h.result
    exact .inl ⟨rfl, _, _, _, hresult⟩
  | completed =>
    obtain ⟨report, hresult, -, -⟩ := h.report
    exact .inr (.inl ⟨rfl, report, hresult⟩)
  | stoppedAt k =>
    have hk : k = calls.length - 1 := by
      rw [h.length]
      omega
    exact .inr (.inr ⟨congrArg Ending.stoppedAt hk, h.engine⟩)

/-- How a run ended, as its result and the number of its calls tell. -/
def Ending.told (calls : List Call) (o : RunOutcome ω) : Ending :=
  match o.result with
  | .ok _ => .completed
  | .error (.unsupportedInput _ _ _) => .refused
  | .error _ => .stoppedAt (calls.length - 1)

/-- **A run ends in one way only:** the one that its result tells. -/
theorem Ending.Describes.eq_told (h : ending.Describes p intake calls o) :
    ending = .told calls o := by
  unfold Ending.told
  rcases h.kind with ⟨hending, _, _, _, hresult⟩ | ⟨hending, _, hresult⟩ |
    ⟨hending, _, _, _, hresult⟩
  all_goals
    rw [hresult]
    exact hending

/-- A run that ended in one of these ways was not aborted. -/
theorem Ending.Describes.clearing (h : ending.Describes p intake calls o) : o.clearing = [] := by
  unfold RunOutcome.clearing
  rcases h.kind with ⟨-, _, _, _, hresult⟩ | ⟨-, _, hresult⟩ | ⟨-, _, _, _, hresult⟩
  all_goals rw [hresult]

/-- Turning the switch off says nothing about how the run ended. -/
theorem Ending.Describes.disarm (h : ending.Describes p intake calls o) :
    ending.Describes p intake calls o.disarm := by
  cases ending with
  | refused => exact ⟨h.calls, h.result, h.state⟩
  | completed => exact ⟨h.taken, h.length, h.answered, h.report, h.state, h.statuses⟩
  | stoppedAt k =>
    exact ⟨h.taken, h.length, h.answered, h.failure, h.engine, h.state, h.statuses⟩

end Endings

/-! ## A run, call by call -/

namespace Moment

variable {ω : Type} {s : Session} {p : Pipeline} {intake : List Artifact} {past : List Call}
  {done rest : List CompiledStep} {step : CompiledStep} {m : Moment ω} {e : Engine ω}

/-- **What is known of a run between two steps**, with the calls so far. -/
structure Midway (s : Session) (p : Pipeline) (intake : List Artifact) (past : List Call)
    (done rest : List CompiledStep) (m : Moment ω) : Prop extends m.Between s done rest where
  split : p.steps = done ++ rest
  length : past.length = done.length
  conducted : Conducted s p intake past
  answered : ∀ call ∈ past, ∃ output, call.output? = some output
  handed : Handed intake past m.inputs
  switch : m.session.switch = .armed

theorem Midway.switch_begin (h : m.Midway s p intake past done (step :: rest))
    (he : e.Uninterrupted) : (m.begin e step).session.switch = .armed := by
  have hbefore := he.before ((m.session.startStep step).request step m.inputs) m.world
  show ((m.session.startStep step).abortIf (e.abortsBefore _ m.world).1).switch = .armed
  rw [hbefore]
  exact h.switch

/-- The step at the place of the next call. -/
theorem Midway.getElem?_steps (h : m.Midway s p intake past done (step :: rest)) :
    p.steps[past.length]? = some step := by
  rw [h.split, h.length]
  simp

theorem Midway.take_steps (h : m.Midway s p intake past done (step :: rest)) :
    p.steps.take past.length = done ∧ p.steps.drop (past.length + 1) = rest := by
  rw [h.split, h.length]
  simp

/-- The next call is for the next step. -/
theorem Midway.madeFor (h : m.Midway s p intake past done (step :: rest))
    (hindex : step.index = past.length) :
    ((m.begin e step).call e step).MadeFor s p past.length step := by
  have hbegun := h.begin e
  obtain ⟨hdone, hrest⟩ := h.take_steps
  exact {
    session := congrArg Charge.id hbegun.charge
    index := hindex
    feature := rfl
    command := rfl
    outputType := rfl
    running := hbegun.state
    current := hbegun.current.trans (congrArg some hindex)
    statuses := by
      rw [hdone, hrest, ← hindex]
      exact hbegun.statuses }

theorem Midway.conducted_concat (h : m.Midway s p intake past done (step :: rest))
    (hindex : step.index = past.length) :
    Conducted s p intake (past ++ [(m.begin e step).call e step]) :=
  h.conducted.concat h.getElem?_steps (h.madeFor hindex) h.handed

/-- A step that is answered leads to the next; its output is handed on. -/
theorem Midway.complete (h : m.Midway s p intake past done (step :: rest))
    (he : e.Uninterrupted) (hindex : step.index = past.length) {output : Artifact}
    {elapsedMs : Nat} (w : ω)
    (hreply : ((m.begin e step).call e step).reply = .finished (.ok output) elapsedMs false) :
    ((m.begin e step).complete step output elapsedMs false w).Midway s p intake
      (past ++ [(m.begin e step).call e step]) (done ++ [step]) rest := by
  have houtput : ((m.begin e step).call e step).output? = some output := by
    unfold Call.output?
    rw [hreply]
  exact {
    toBetween := h.toBetween.complete e output elapsedMs false w
    split := by
      rw [h.split, List.append_assoc]
      rfl
    length := by
      rw [List.length_append, List.length_append, h.length]
      rfl
    conducted := h.conducted_concat hindex
    answered := by
      intro call hcall
      rcases List.mem_append.mp hcall with hcall | hcall
      · exact h.answered call hcall
      · rw [List.mem_singleton.mp hcall]
        exact ⟨output, houtput⟩
    handed := by
      unfold Handed
      rw [List.getLast?_concat]
      exact ⟨output, houtput, rfl⟩
    switch := h.switch_begin he }

/-- A step that fails is where the run stops. -/
theorem Midway.stop (h : m.Midway s p intake past done (step :: rest))
    (hindex : step.index = past.length)
    (htaken : p.checkInputs (intake.map (·.mediaType)) = .ok ()) {cause : Error}
    {elapsedMs : Nat} (w : ω)
    (hreply : ((m.begin e step).call e step).reply = .finished (.error cause) elapsedMs false) :
    StoppedAt past.length p intake (past ++ [(m.begin e step).call e step])
      ((m.begin e step).stop step cause false w) := by
  obtain ⟨index, feature, reason, hfailure⟩ := exists_stepError step cause
  obtain ⟨-, hstate, -, hstatuses⟩ :=
    ((h.begin e).abortIf false).failStep (stepError step cause)
  obtain ⟨hdone, hrest⟩ := h.take_steps
  exact {
    taken := htaken
    length := List.length_append
    answered := by
      rw [List.take_left]
      exact h.answered
    failure := ⟨step, _, cause, elapsedMs, h.getElem?_steps, List.getElem?_concat_length, hreply,
      rfl⟩
    engine := ⟨index, feature, reason, congrArg Except.error hfailure⟩
    state := hstate
    statuses := by
      rw [hdone, hrest, ← hindex]
      exact hstatuses }

/-- With no step left, the run is completed. -/
theorem Midway.conclude (h : m.Midway s p intake past done []) (hne : p.steps ≠ [])
    (htaken : p.checkInputs (intake.map (·.mediaType)) = .ok ()) :
    Completed p intake past m.conclude := by
  have hdone : p.steps = done := h.split.trans (List.append_nil done)
  obtain ⟨output, hlast, hresult, -, hstate, hstatuses, -⟩ := h.toBetween.conclude (hdone ▸ hne)
  have houtput : past.getLast?.bind Call.output? = some output := by
    have hhanded := h.handed
    unfold Handed at hhanded
    cases hcall : past.getLast? with
    | none =>
      -- without a call there is no step behind, and the pipeline has one
      have hlength := h.length
      rw [List.getLast?_eq_none_iff.mp hcall] at hlength
      exact absurd (hdone.trans (List.eq_nil_of_length_eq_zero hlength.symm)) hne
    | some call =>
      rw [hcall] at hhanded
      obtain ⟨output', houtput', hinputs⟩ := hhanded
      rw [hinputs] at hlast
      exact houtput'.trans hlast
  exact {
    taken := htaken
    length := by
      rw [h.length, Pipeline.size, hdone]
    answered := h.answered
    report := ⟨_, hresult, by rw [h.reports, hdone], houtput⟩
    state := hstate
    statuses := by rw [hstatuses, hdone] }

/-- **A run that nobody aborts, from between two steps to its end.** The
induction is over the steps that are left; each call goes over to those that
were made. -/
theorem Midway.run (h : m.Midway s p intake past done rest) (he : e.Uninterrupted)
    (hindex : ∀ (k : Nat) (step : CompiledStep), p.steps[k]? = some step → step.index = k)
    (hne : p.steps ≠ []) (htaken : p.checkInputs (intake.map (·.mediaType)) = .ok ()) :
    Conducted s p intake (past ++ m.calls e rest) ∧
      ∃ ending : Ending, ending.Describes p intake (past ++ m.calls e rest) (m.run e rest) := by
  induction rest generalizing m past done with
  | nil =>
    show Conducted s p intake (past ++ []) ∧
      ∃ ending : Ending, ending.Describes p intake (past ++ []) m.conclude
    rw [List.append_nil]
    exact ⟨h.conducted, .completed, h.conclude hne htaken⟩
  | cons step rest ih =>
    have hplace := hindex _ _ h.getElem?_steps
    have hpulled : (m.begin e step).session.switch ≠ .pulled := by
      rw [h.switch_begin he]
      exact Switch.noConfusion
    obtain ⟨result, elapsedMs, hreply⟩ := he.answers
      ((m.begin e step).session.request step m.inputs) (m.begin e step).world
    -- the turn settles the reply; what else the call does to the world is left open
    have hturn : m.turn e step = (m.begin e step).settle e step
        (.finished result elapsedMs false, (e.call
          ((m.begin e step).session.request step m.inputs) (m.begin e step).world).2) :=
      turn_of_call hpulled (Prod.ext hreply rfl)
    cases result with
    | ok output =>
      rw [calls_of_on hpulled hturn, run_of_on hturn, List.append_cons]
      exact ih (h.complete he hplace _ hreply)
    | error cause =>
      rw [calls_of_over hpulled hturn, run_of_over hturn]
      exact ⟨h.conducted_concat hplace, .stoppedAt past.length,
        h.stop hplace htaken _ hreply⟩

end Moment

/-! ## A run of a session that is ready -/

section Run

variable {ω : Type} {s : Session} {p : Pipeline} {e : Engine ω} {intake : List Artifact} {w : ω}

/-- A run begins with no calls made. -/
theorem opening_midway (hstatuses : s.execution.progress.entries = marked .pending p.steps)
    (hcurrent : s.execution.currentStep = none) :
    (s.opening intake w).Midway s p intake [] [] p.steps where
  toBetween := opening_between hstatuses hcurrent intake w
  split := rfl
  length := rfl
  conducted := conducted_nil
  answered _ h := absurd h List.not_mem_nil
  handed := rfl
  switch := rfl

/-- The calls of a session that is ready, and an ending of its run. -/
theorem conducted_of_ready (hs : s.Consistent) (hready : s.state = .ready)
    (hp : s.pipeline = some p) (he : e.Uninterrupted) (intake : List Artifact) (w : ω) :
    p.steps ≠ [] ∧ Conducted s p intake (s.calls e intake w) ∧
      ∃ ending : Ending,
        ending.Describes p intake (s.calls e intake w) (s.run e intake w) := by
  obtain ⟨q, hq, hne, hstatuses, hcurrent⟩ := hs.ready hready
  obtain rfl : q = p := Option.some.inj (hq.pipeline.symm.trans hp)
  refine ⟨hne, ?_⟩
  cases htaken : q.checkInputs (intake.map (·.mediaType)) with
  | error err =>
    rw [run_of_refused hready hp htaken, calls_of_refused hready hp htaken]
    obtain ⟨first, why, hfirst, hwhy, rfl⟩ := Pipeline.checkInputs_eq_error.mp htaken
    exact ⟨conducted_nil, .refused, rfl, ⟨first, why, hfirst, hwhy, rfl⟩, rfl⟩
  | ok _ =>
    rw [run_of_taken hready hp htaken, calls_of_taken hready hp htaken]
    obtain ⟨hconducted, ending, hending⟩ := (opening_midway hstatuses hcurrent).run he
      (fun _ _ hstep => Registry.index_of_compileAll hq.compiled hstep) hne htaken
    exact ⟨hconducted, ending, hending.disarm⟩

/-- **What a run of a ready session does that nobody aborts.** The session has
a pipeline with steps. An engine that keeps a log sees the calls and nothing
else, and they are one for each step, in order, each with what the call
before returned. The run ends in exactly one way: the first step refuses the
intake, all steps are completed, or one is the first to fail. -/
theorem run_of_ready (hs : s.Reachable) (hready : s.state = .ready) (he : e.Uninterrupted)
    (intake : List Artifact) (w : ω) :
    ∃ p, s.pipeline = some p ∧ p.steps ≠ [] ∧
      s.run e.logged intake (w, []) =
        (s.run e intake w).logging ((s.calls e intake w).map Call.exchange) ∧
      Conducted s p intake (s.calls e intake w) ∧
      ∃! ending : Ending,
        ending.Describes p intake (s.calls e intake w) (s.run e intake w) := by
  obtain ⟨p, hp, -⟩ := hs.consistent.ready hready
  obtain ⟨hne, hconducted, ending, hending⟩ :=
    conducted_of_ready hs.consistent hready hp.pipeline he intake w
  refine ⟨p, hp.pipeline, hne, ?_, hconducted, ending, hending, fun other hother => ?_⟩
  · rw [run_logged, hending.clearing, List.nil_append, List.append_nil]
  · have htold := Ending.Describes.eq_told hother
    exact htold.trans hending.eq_told.symm

/-- A tree of commands with two features, which both take a video. -/
def silentFilm : Registry where
  catalogs := ⟨⟨[.grayscale, .removeAudio]⟩, ⟨[]⟩⟩
  roots := [Registry.featuresNode
    [⟨"Grayscale", "", .direct, none, [], [.feature "GRAYSCALE"]⟩,
      ⟨"Remove Audio", "", .direct, none, [], [.feature "REMOVE_AUDIO"]⟩]]

/-- A session over it with both features compiled. -/
def silentFilmSession : Session :=
  after ⟨⟨0⟩⟩ silentFilm
    [.select [⟨"Features/Grayscale", []⟩, ⟨"Features/Remove Audio", []⟩], .submit]

/-- An engine that always hands back a video. -/
def obliging : Engine Unit where
  abortsBefore _ w := (false, w)
  call _ w := (.finished (.ok ⟨⟨"out.mp4"⟩, .video⟩) 1 false, w)
  abandon _ w := w

/-- A video to start with. -/
def film : List Artifact := [⟨⟨"in.mp4"⟩, .video⟩]

theorem run_of_ready_silentFilm :
    silentFilmSession.Reachable ∧ silentFilmSession.state = .ready ∧ obliging.Uninterrupted ∧
      ∃ p, silentFilmSession.pipeline = some p ∧ p.steps ≠ [] ∧
        silentFilmSession.run obliging.logged film ((), []) =
          (silentFilmSession.run obliging film ()).logging
            ((silentFilmSession.calls obliging film ()).map Call.exchange) ∧
        Conducted silentFilmSession p film (silentFilmSession.calls obliging film ()) ∧
        ∃! ending : Ending, ending.Describes p film (silentFilmSession.calls obliging film ())
          (silentFilmSession.run obliging film ()) := by
  have hreachable : silentFilmSession.Reachable := ⟨_, _, _, rfl⟩
  have hready : silentFilmSession.state = .ready := by cbv
  have hobliging : obliging.Uninterrupted := ⟨fun _ _ => rfl, fun _ _ => ⟨_, _, rfl⟩⟩
  exact ⟨hreachable, hready, hobliging, run_of_ready hreachable hready hobliging film ()⟩

end Run

end Session

end MediaPipeline
