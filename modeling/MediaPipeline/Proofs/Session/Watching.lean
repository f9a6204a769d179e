import MediaPipeline.Proofs.Session.Calls
/-!
# Session/Watching — what is seen of a run, and when

Whether an abort takes effect is a matter of what came before it. A `Sign` is
something that can be seen of a run from outside, and `Engine.watched` is an
engine that writes the signs down in the order of time: aborts, requests,
results, and the clearing up. `Engine.quiet` is the same engine where nobody
aborts. A turn of a run is told for the three engines side by side
(`turn_watched_of_pulled`, `turns_of_call`).
-/


namespace MediaPipeline

/-- Something that is seen of a run. -/
inductive Sign where
  | aborted
  | called (request : Request)
  | observed (result : Except Error Artifact)
  | abandoned (session : SessionId)

namespace Sign

/-- Whether a request begins. -/
def isCall : Sign → Bool
  | called _ => true
  | _ => false

/-- Whether a request ends with a result. -/
def isResult : Sign → Bool
  | observed _ => true
  | _ => false

/-- Whether a request succeeds. -/
def isSuccess : Sign → Bool
  | observed (.ok _) => true
  | _ => false

/-- Whether the engine is told to clear up. -/
def isClearing : Sign → Bool
  | abandoned _ => true
  | _ => false

/-- An abort, if there was one. -/
def abortIf (aborted : Bool) : List Sign := if aborted then [.aborted] else []

end Sign

namespace Reply

/-- What is seen of a reply. An abort that came while the request ended may
have come just before its result or just behind it; `early` says which. -/
def signs (early : Bool) : Reply → List Sign
  | finished result _ false => [.observed result]
  | finished result _ true =>
    if early then [.aborted, .observed result] else [.observed result, .aborted]
  | interrupted => [.aborted]

/-- The same reply with no abort while it ended. -/
def quiet : Reply → Reply
  | finished result elapsedMs _ => finished result elapsedMs false
  | interrupted => interrupted

end Reply

namespace Engine

variable {ω : Type}

/-- An engine that writes down the signs of a run, the oldest first. -/
def watched (e : Engine ω) (early : Request → Bool) : Engine (ω × List Sign) where
  abortsBefore request w :=
    let (aborted, next) := e.abortsBefore request w.1
    (aborted, next, w.2 ++ Sign.abortIf aborted)
  call request w :=
    let (reply, next) := e.call request w.1
    (reply, next, w.2 ++ .called request :: reply.signs (early request))
  abandon session w := (e.abandon session w.1, w.2 ++ [.abandoned session])

/-- The same engine where nobody aborts: it does the same to its world and
gives the same results, but does not report an abort beside them. -/
def quiet (e : Engine ω) : Engine ω where
  abortsBefore request w := (false, (e.abortsBefore request w).2)
  call request w :=
    let (reply, next) := e.call request w
    (reply.quiet, next)
  abandon := e.abandon

end Engine

namespace Session

/-! ## What an abort does to a session -/

/-- An abort touches the switch and nothing else. -/
theorem abortIf_eq (s : Session) (aborted : Bool) :
    s.abortIf aborted = { s with switch := (s.abortIf aborted).switch } := by
  unfold Session.abortIf Session.abort
  cases aborted with
  | false => rfl
  | true => cases s.switch <;> rfl

theorem switch_abortIf {s : Session} (h : s.switch = .armed) (aborted : Bool) :
    (s.abortIf aborted).switch = if aborted then .pulled else .armed := by
  unfold Session.abortIf Session.abort
  rw [h]
  cases aborted with
  | false => exact h
  | true => rfl

theorem switch_abortIf_of_pulled {s : Session} (h : s.switch = .pulled) (aborted : Bool) :
    (s.abortIf aborted).switch = .pulled := by
  unfold Session.abortIf Session.abort
  rw [h]
  cases aborted <;> exact h

/-! ## A turn, watched and undisturbed -/

section Watched

variable {ω : Type} {e : Engine ω} {early : Request → Bool}

/-- A moment of a run of which some signs were written down. -/
def Moment.watching (m : Moment ω) (signs : List Sign) : Moment (ω × List Sign) where
  session := m.session
  inputs := m.inputs
  reports := m.reports
  world := (m.world, signs)

/-- The outcome of a run of which some signs were written down. -/
def RunOutcome.watching (o : RunOutcome ω) (signs : List Sign) :
    RunOutcome (ω × List Sign) where
  result := o.result
  session := o.session
  world := (o.world, signs)

theorem watched_call {request : Request} {w w' : ω} {reply : Reply} {signs : List Sign}
    (h : e.call request w = (reply, w')) :
    (e.watched early).call request (w, signs) =
      (reply, w', signs ++ .called request :: reply.signs (early request)) := by
  unfold Engine.watched
  simp only [h]

theorem quiet_call {request : Request} {w w' : ω} {reply : Reply}
    (h : e.call request w = (reply, w')) : e.quiet.call request w = (reply.quiet, w') := by
  unfold Engine.quiet
  simp only [h]

namespace Moment

variable {m : Moment ω} {step : CompiledStep} {signs : List Sign}

/-- The request for a step that is begun now. -/
def nextRequest (m : Moment ω) (step : CompiledStep) : Request :=
  (m.session.startStep step).request step m.inputs

/-- Whether the run is aborted just before that request. -/
def abortedBefore (e : Engine ω) (m : Moment ω) (step : CompiledStep) : Bool :=
  (e.abortsBefore (m.nextRequest step) m.world).1

theorem begin_watched :
    (m.watching signs).begin (e.watched early) step =
      (m.begin e step).watching (signs ++ Sign.abortIf (m.abortedBefore e step)) := rfl

theorem session_begin :
    (m.begin e step).session = (m.session.startStep step).abortIf (m.abortedBefore e step) := rfl

/-- An abort before the request does not change it. -/
theorem request_begin : (m.begin e step).session.request step m.inputs = m.nextRequest step := by
  rw [session_begin, abortIf_eq]
  rfl

theorem id_begin : (m.begin e step).session.id = m.session.id :=
  congrArg Prod.fst (origin_begin e m step)

theorem switch_begin (h : m.session.switch = .armed) :
    (m.begin e step).session.switch = if m.abortedBefore e step then .pulled else .armed := by
  have hstarted : (m.session.startStep step).switch = .armed := h
  exact switch_abortIf hstarted _

theorem switch_begin_of_pulled (step : CompiledStep) (h : m.session.switch = .pulled) :
    (m.begin e step).session.switch = .pulled := by
  have hstarted : (m.session.startStep step).switch = .pulled := h
  exact switch_abortIf_of_pulled hstarted _

/-- Where nobody aborts before a step, it begins the same without aborts. -/
theorem begin_quiet (h : m.abortedBefore e step = false) :
    m.begin e.quiet step = m.begin e step := by
  have hsession : (m.begin e.quiet step).session = (m.begin e step).session := by
    rw [session_begin, session_begin, h]
    rfl
  unfold Moment.begin at hsession ⊢
  exact congrArg (Moment.mk · m.inputs m.reports _) hsession

/-- **A turn of a run that was aborted before the request.** Nothing is
requested, and the engine clears up. -/
theorem turn_watched_of_pulled (early : Request → Bool) (signs : List Sign)
    (h : (m.begin e step).session.switch = .pulled) :
    (m.watching signs).turn (e.watched early) step =
      .over ((abandon e (m.begin e step).session (m.begin e step).world).watching
        (signs ++ (Sign.abortIf (m.abortedBefore e step) ++ [.abandoned m.session.id]))) := by
  rw [turn_of_pulled (m := m.watching signs) (e := e.watched early) h, begin_watched,
    ← List.append_assoc, ← id_begin]
  rfl

/-- **A turn of a run that was not aborted before the request.** All three
engines settle the same reply, one of them without the abort that it may have
seen. -/
theorem turns_of_call (early : Request → Bool) (signs : List Sign) {reply : Reply} {w : ω}
    (harmed : m.session.switch = .armed) (hbefore : m.abortedBefore e step = false)
    (hcall : e.call (m.nextRequest step) (m.begin e step).world = (reply, w)) :
    m.turn e step = (m.begin e step).settle e step (reply, w) ∧
      (m.watching signs).turn (e.watched early) step =
        ((m.begin e step).watching signs).settle (e.watched early) step
          (reply, w, signs ++ .called (m.nextRequest step) ::
            reply.signs (early (m.nextRequest step))) ∧
      m.turn e.quiet step = (m.begin e step).settle e.quiet step (reply.quiet, w) := by
  have hswitch : (m.begin e step).session.switch ≠ .pulled := by
    rw [switch_begin harmed, hbefore]
    exact Switch.noConfusion
  have hbegun : (m.watching signs).begin (e.watched early) step =
      (m.begin e step).watching signs := by
    rw [begin_watched, hbefore]
    exact congrArg _ (List.append_nil signs)
  have hquiet := begin_quiet hbefore
  -- the step begins the same for all three, and each then makes its own call
  refine ⟨turn_of_call hswitch ?_, ?_, ?_⟩
  · rw [request_begin]
    exact hcall
  · rw [← hbegun]
    refine turn_of_call (by rw [hbegun]; exact hswitch) ?_
    rw [hbegun]
    show (e.watched early).call ((m.begin e step).session.request step m.inputs)
      ((m.begin e step).world, signs) = _
    rw [request_begin]
    exact watched_call hcall
  · rw [← hquiet]
    refine turn_of_call (by rw [hquiet]; exact hswitch) ?_
    rw [hquiet, request_begin]
    exact quiet_call hcall

end Moment

end Watched

end Session

end MediaPipeline
