import MediaPipeline.Proofs.Session.Abort
import MediaPipeline.Proofs.Session.Conduct
/-!
# Session/Precision — what aborts do, and what they do not

What is promised of aborts depends on which of them come too late for a run
(`Precise`). The result that decides a run may be returned by a request during
which the abort comes. Such an abort is too late; with that said, every
session heeds aborts precisely, after any sequence of operations, whatever
engine it runs on and whenever the aborts come (`after_heedsAborts`). The
order of time alone does not tell which aborts are too late: a run may succeed
though the abort came just before the last result
(`not_heedsAborts_by_order`).
-/


namespace MediaPipeline

namespace Session

variable {ω : Type}

/-- **A run that was cancelled** leaves the session as if it were new. -/
structure RunOutcome.Cancelled (o : RunOutcome ω) : Prop where
  result : o.result = .error .cancelled
  state : o.session.state = .idle
  execution : o.session.execution = {}
  pipeline : o.session.pipeline = none
  lastError : o.session.lastError = none

/-- **What is promised of the aborts in a run,** given its signs and the run
without aborts; `settled` says of the signs on both sides of an abort whether
it comes too late.

An abort that is not too late cancels the run; nothing is requested after it,
and the engine is told once to clear up after the session. One that is too
late makes no difference. And the engine is told to clear up in no other
case. -/
structure Precise (settled : List Sign → List Sign → Prop) (session : SessionId)
    (o undisturbed : RunOutcome ω) (signs : List Sign) : Prop where
  timely : ∀ before after, signs = before ++ .aborted :: after → ¬ settled before after →
    o.Cancelled ∧ after.filter Sign.isCall = [] ∧
      signs.filter Sign.isClearing = [.abandoned session]
  late : ∀ before after, signs = before ++ .aborted :: after → settled before after →
    o = undisturbed
  cleared : signs.filter Sign.isClearing ≠ [] →
    ∃ before after, signs = before ++ .aborted :: after ∧ ¬ settled before after

variable {session : SessionId} {n : Nat} {o undisturbed : RunOutcome ω} {signs : List Sign}

/-- A run that is abandoned had no abort that came too late. -/
theorem precise_of_abandoned (h : Abandoned session n signs) (ho : o.Cancelled) :
    Precise (Settled n) session o undisturbed signs := by
  have hunsettled : ∀ before after, signs = before ++ .aborted :: after →
      ¬ Settled n before after := by
    intro before after hsplit hsettled
    have hdecided := hsettled.decided
    rw [← hsplit] at hdecided
    exact h.not_decided hdecided
  refine ⟨fun before after hsplit _ => ⟨ho, h.calls_behind hsplit, h.clearing⟩, ?_, fun _ => ?_⟩
  · intro before after hsplit hsettled
    exact absurd hsettled (hunsettled before after hsplit)
  · obtain ⟨before, after, hsplit⟩ := List.append_of_mem h.aborted_mem
    exact ⟨before, after, hsplit, hunsettled before after hsplit⟩

/-- A run that ends by itself had no other abort. -/
theorem precise_of_finished (h : Finished n signs) (ho : o = undisturbed) :
    Precise (Settled n) session o undisturbed signs where
  timely _ _ hsplit hunsettled := absurd (h.settled hsplit) hunsettled
  late _ _ _ _ := ho
  cleared hclearing := absurd h.clearing hclearing

/-- A run without signs is no different without aborts. -/
theorem precise_nil {settled : List Sign → List Sign → Prop} (ho : o = undisturbed) :
    Precise settled session o undisturbed [] where
  timely _ _ hsplit := by simp at hsplit
  late _ _ _ _ := ho
  cleared hclearing := absurd rfl hclearing

/-! ## Runs and sessions -/

/-- An abandoned run leaves the session reset. -/
theorem cancelled_abandon (e : Engine ω) (s : Session) (w : ω) : (abandon e s w).Cancelled := by
  have hreset : s.reset.state = .idle ∧ s.reset.execution = {} ∧ s.reset.pipeline = none ∧
      s.reset.lastError = none := by
    unfold Session.reset
    by_cases hidle : s.state = .idle
    · rw [if_pos hidle]
      exact ⟨hidle, rfl, rfl, rfl⟩
    · rw [if_neg hidle]
      exact ⟨rfl, rfl, rfl, rfl⟩
  obtain ⟨hstate, hexecution, hpipeline, herror⟩ := hreset
  exact ⟨rfl, hstate, hexecution, hpipeline, herror⟩

theorem disarm_abandon (e : Engine ω) (s : Session) (w : ω) :
    (abandon e s w).disarm = abandon e s w := by
  unfold RunOutcome.disarm abandon
  rw [switch_reset]

/-- **However a run ends, the promise is kept.** -/
theorem Moment.Ends.precise {e : Engine ω} {m : Moment ω} {steps : List CompiledStep}
    (h : m.Ends e steps signs) :
    Precise (Settled steps.length) m.session.id (m.run e steps).disarm
      (m.run e.quiet steps).disarm signs := by
  cases h with
  | abandoned hsigns hrun =>
    obtain ⟨s, w, hrun⟩ := hrun
    rw [hrun, disarm_abandon]
    exact precise_of_abandoned hsigns (cancelled_abandon e s w)
  | finished hsigns hsame => exact precise_of_finished hsigns hsame

/-- How many steps a run of the session has. -/
def stepCount (s : Session) : Nat :=
  match s.pipeline with
  | none => 0
  | some p => p.size

/-- **How a session heeds aborts,** where `settled` says which of them come too
late for a run over so many steps. All handles of a session pull its one
switch, so it does not matter which of them an abort comes from. Outside a run
it leaves the session as it is, and whatever is done later is the same. In a
run, an engine that writes down the signs sees what any other engine does, and
the promise is kept, whatever the engine does and whenever it reports an
abort. -/
structure HeedsAborts (settled : Nat → List Sign → List Sign → Prop) (s : Session) : Prop where
  outside : s.abort = s
  inside : ∀ {ω : Type} (e : Engine ω) (early : Request → Bool) (intake : List Artifact) (w : ω),
    ∃ signs, s.run (e.watched early) intake (w, []) = (s.run e intake w).watching signs ∧
      Precise (settled s.stepCount) s.id (s.run e intake w) (s.run e.quiet intake w) signs

theorem Consistent.heedsAborts {s : Session} (h : s.Consistent) : s.HeedsAborts Settled := by
  refine ⟨abort_of_off h.switch, fun e early intake w => ?_⟩
  by_cases hready : s.state = .ready
  · obtain ⟨p, hp, -⟩ := h.ready hready
    cases hcheck : p.checkInputs (intake.map (·.mediaType)) with
    | error err =>
      -- a run that does not begin has no signs
      rw [run_of_refused hready hp.pipeline hcheck, run_of_refused hready hp.pipeline hcheck,
        run_of_refused hready hp.pipeline hcheck]
      exact ⟨[], rfl, precise_nil rfl⟩
    | ok _ =>
      rw [run_of_taken hready hp.pipeline hcheck, run_of_taken hready hp.pipeline hcheck,
        run_of_taken hready hp.pipeline hcheck]
      have hcount : s.stepCount = p.steps.length := by
        unfold stepCount
        rw [hp.pipeline]
        rfl
      obtain ⟨signs, hrun, hends⟩ :=
        (s.opening intake w).continues (e := e) early rfl p.steps []
      rw [hcount]
      exact ⟨signs, congrArg RunOutcome.disarm hrun, hends.precise⟩
  · rw [run_of_not_ready hready, run_of_not_ready hready, run_of_not_ready hready]
    exact ⟨[], rfl, precise_nil rfl⟩

/-- **A session heeds aborts precisely,** after any sequence of operations. -/
theorem after_heedsAborts (id : SessionId) (r : Registry) (operations : List Operation) :
    (after id r operations).HeedsAborts Settled :=
  ((consistent_start id r).foldl operations).heedsAborts

/-- A session with one feature compiled. -/
def shortFilmSession : Session :=
  after ⟨⟨0⟩⟩ silentFilm [.select [⟨"Features/Grayscale", []⟩], .submit]

/-- An engine that is aborted during every request, and hands back a video all
the same. -/
def hurried : Engine Unit where
  abortsBefore _ w := (false, w)
  call _ w := (.finished (.ok ⟨⟨"out.mp4"⟩, .video⟩) 1 true, w)
  abandon _ w := w

/-- **The order of time alone does not tell which aborts are too late:** here
the abort comes before the result that decides the run, and the run succeeds
all the same. -/
theorem not_heedsAborts_by_order :
    ¬ shortFilmSession.HeedsAborts fun n before _ => Decided n before := by
  intro h
  obtain ⟨signs, hrun, hprecise⟩ := h.inside hurried (fun _ => true) film ()
  have hcount : shortFilmSession.stepCount = 1 := by cbv
  have hsigns : ∃ request output, (shortFilmSession.run (hurried.watched fun _ => true) film
      ((), [])).world.2 = [.called request, .aborted, .observed (.ok output)] := ⟨_, _, by cbv⟩
  have hresult : ∃ report, (shortFilmSession.run hurried film ()).result = .ok report :=
    ⟨_, by cbv⟩
  obtain ⟨request, output, hsigns⟩ := hsigns
  obtain ⟨report, hresult⟩ := hresult
  rw [hrun] at hsigns
  have hundecided : ¬ Decided shortFilmSession.stepCount [.called request] := by
    rw [hcount]
    simp [Decided, Sign.isSuccess]
  obtain ⟨hcancelled, -, -⟩ := hprecise.timely [.called request] _ hsigns hundecided
  have hcontra := hresult.symm.trans hcancelled.result
  cases hcontra

end Session

end MediaPipeline
