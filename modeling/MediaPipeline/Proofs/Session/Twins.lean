import MediaPipeline.Proofs.Session.Consistency
import MediaPipeline.Proofs.Session.Calls
/-!
# Session/Twins — sessions that differ in name only

Twins agree in everything but their ids and their journals. No operation looks
at either, so what is done to both gives the same results and leaves twins. A
run hands the id on to its engine, so the two may be run by different engines,
as long as these mirror each other: asked the same under either id they reply
the same, and their worlds stay related (`Engine.Mirrors`). Such runs keep step:
each turn is over for both or goes on for both (`Moment.Twins.turn`), and by
induction over the steps they end the same way (`Twins.run`). Engines that keep
a log of what they are asked mirror each other as well (`Mirrors.logged`), so
the twins ask the same of their engines, id for id.
-/


namespace MediaPipeline

/-! ## Engines that mirror each other -/

/-- A request in the name of another session. -/
def Request.signed (q : Request) (id : SessionId) : Request := { q with session := id }

/-- An exchange in the name of another session. -/
def Exchange.signed (id : SessionId) : Exchange → Exchange
  | .called request reply => .called (request.signed id) reply
  | .abandoned _ => .abandoned id

/-- The same reply, in worlds that are related. -/
def SameReply {α ω ω' : Type} (R : ω → ω' → Prop) (x : α × ω) (y : α × ω') : Prop :=
  x.1 = y.1 ∧ R x.2 y.2

/-- **Engines that mirror each other** for two sessions: in related worlds they
answer the request of the one session as that of the other. -/
structure Engine.Mirrors {ω ω' : Type} (e : Engine ω) (e' : Engine ω') (i j : SessionId)
    (R : ω → ω' → Prop) : Prop where
  abortsBefore : ∀ (q : Request) w w', R w w' →
    SameReply R (e.abortsBefore (q.signed i) w) (e'.abortsBefore (q.signed j) w')
  call : ∀ (q : Request) w w', R w w' →
    SameReply R (e.call (q.signed i) w) (e'.call (q.signed j) w')
  abandon : ∀ w w', R w w' → R (e.abandon i w) (e'.abandon j w')

section Engines

variable {ω ω' : Type} {e : Engine ω} {e' : Engine ω'} {i j : SessionId} {R : ω → ω' → Prop}

/-- The engine that takes every request for one of the given session. -/
def Engine.addressed (e : Engine ω) (id : SessionId) : Engine ω where
  abortsBefore q := e.abortsBefore (q.signed id)
  call q := e.call (q.signed id)
  abandon _ := e.abandon id

/-- **Every engine has a mirror,** for any two sessions. -/
theorem Engine.mirrors_addressed (e : Engine ω) (i j : SessionId) :
    e.Mirrors (e.addressed i) i j Eq where
  abortsBefore := by
    rintro q w _ rfl
    exact ⟨rfl, rfl⟩
  call := by
    rintro q w _ rfl
    exact ⟨rfl, rfl⟩
  abandon := by
    rintro w _ rfl
    rfl

/-- Worlds with logs are related where the logs are the same but for the id. -/
def WithLogs (R : ω → ω' → Prop) (j : SessionId) (a : ω × List Exchange)
    (b : ω' × List Exchange) : Prop :=
  R a.1 b.1 ∧ a.2.map (Exchange.signed j) = b.2

/-- So do engines that keep logs: what they are asked is the same. -/
theorem Engine.Mirrors.logged (h : e.Mirrors e' i j R) :
    e.logged.Mirrors e'.logged i j (WithLogs R j) where
  abortsBefore q a b hab := by
    obtain ⟨hreply, hworld⟩ := h.abortsBefore q a.1 b.1 hab.1
    exact ⟨hreply, hworld, hab.2⟩
  call q a b hab := by
    obtain ⟨hreply, hworld⟩ := h.call q a.1 b.1 hab.1
    refine ⟨hreply, hworld, ?_⟩
    show (a.2 ++ [Exchange.called (q.signed i) (e.call (q.signed i) a.1).1]).map _ =
      b.2 ++ [Exchange.called (q.signed j) (e'.call (q.signed j) b.1).1]
    rw [List.map_append, hab.2, hreply]
    rfl
  abandon a b hab := by
    refine ⟨h.abandon a.1 b.1 hab.1, ?_⟩
    show (a.2 ++ [Exchange.abandoned i]).map _ = b.2 ++ [Exchange.abandoned j]
    rw [List.map_append, hab.2]
    rfl

end Engines

namespace Session

/-- **Sessions that differ in their ids and journals only.** -/
structure Twins (i j : SessionId) (s t : Session) : Prop where
  id : s.id = i
  same : ∃ journal, t = { s with id := j, journal := journal }

/-- The same result, and twins behind it. -/
def Outcome.Twins {α : Type} (i j : SessionId) (o o' : Outcome α) : Prop :=
  o.result = o'.result ∧ Session.Twins i j o.session o'.session

namespace Twins

variable {i j : SessionId} {s t : Session} (h : Twins i j s t)

include h

/-! ## What twins have in common -/

theorem registry : t.registry = s.registry := by
  obtain ⟨-, journal, rfl⟩ := h
  rfl

theorem state : t.state = s.state := by
  obtain ⟨-, journal, rfl⟩ := h
  rfl

theorem execution : t.execution = s.execution := by
  obtain ⟨-, journal, rfl⟩ := h
  rfl

theorem pipeline : t.pipeline = s.pipeline := by
  obtain ⟨-, journal, rfl⟩ := h
  rfl

theorem lastError : t.lastError = s.lastError := by
  obtain ⟨-, journal, rfl⟩ := h
  rfl

theorem switch : t.switch = s.switch := by
  obtain ⟨-, journal, rfl⟩ := h
  rfl

theorem notNow (action : String) : t.notNow action = s.notNow action := by
  unfold Session.notNow
  rw [h.state]

theorem kinds (selections : List Selection) : t.kinds selections = s.kinds selections := by
  unfold Session.kinds
  rw [h.registry]

theorem checkSelections (selections : List Selection) :
    t.checkSelections selections = s.checkSelections selections := by
  unfold Session.checkSelections
  rw [h.state, h.registry, h.notNow]

theorem plannedSteps : t.plannedSteps = s.plannedSteps := by
  unfold Session.plannedSteps
  rw [h.registry, h.execution]

theorem pendingConfiguration : t.pendingConfiguration = s.pendingConfiguration := by
  unfold Session.pendingConfiguration
  rw [h.plannedSteps, h.execution]

/-! ## Operations without an engine -/

theorem announce (a : Announcement) : Twins i j (s.announce a) (t.announce a) := by
  obtain ⟨hid, journal, rfl⟩ := h
  exact ⟨hid, _, rfl⟩

theorem enter (state : State) : Twins i j (s.enter state) (t.enter state) := by
  obtain ⟨hid, journal, rfl⟩ := h
  exact ⟨hid, _, rfl⟩

theorem fail (e : Error) : Twins i j (s.fail e) (t.fail e) := by
  obtain ⟨hid, journal, rfl⟩ := h
  exact ⟨hid, _, rfl⟩

theorem withSwitch (switch : Switch) :
    Twins i j { s with switch := switch } { t with switch := switch } := by
  obtain ⟨hid, journal, rfl⟩ := h
  exact ⟨hid, _, rfl⟩

theorem abort : Twins i j s.abort t.abort := by
  unfold Session.abort
  rw [h.switch]
  split
  · exact h.withSwitch .pulled
  · exact h

theorem abortIf (aborted : Bool) : Twins i j (s.abortIf aborted) (t.abortIf aborted) := by
  cases aborted with
  | false => exact h
  | true => exact h.abort

theorem reset : Twins i j s.reset t.reset := by
  have hcleared : Twins i j
      { s with execution := {}, pipeline := none, lastError := none, switch := .off }
      { t with execution := {}, pipeline := none, lastError := none, switch := .off } := by
    obtain ⟨hid, journal, rfl⟩ := h
    exact ⟨hid, _, rfl⟩
  unfold Session.reset
  dsimp only
  by_cases hidle : s.state = .idle
  · rw [if_pos hidle, if_pos (h.state.trans hidle)]
    exact hcleared.announce .reset
  · rw [if_neg hidle, if_neg (h.state ▸ hidle)]
    exact (hcleared.announce .reset).enter .idle

theorem refuse {α : Type} (e : Error) : (s.refuse e : Outcome α).Twins i j (t.refuse e) :=
  ⟨rfl, h⟩

theorem choose (selections : List Selection) :
    Twins i j (s.choose selections) (t.choose selections) := by
  obtain ⟨hid, journal, rfl⟩ := h
  exact ⟨hid, _, rfl⟩

theorem select (selections : List Selection) :
    (s.select selections).Twins i j (t.select selections) := by
  unfold Session.select
  rw [h.kinds]
  cases s.kinds selections with
  | error e => exact h.refuse e
  | ok kinds =>
    dsimp only
    split
    · split
      · exact h.refuse _
      · exact ⟨rfl, h.reset⟩
    · rw [h.checkSelections]
      cases s.checkSelections selections with
      | error e => exact h.refuse e
      | ok _ => exact ⟨rfl, h.choose selections⟩

theorem configure (index : Nat) (c : Configuration) :
    (s.configure index c).Twins i j (t.configure index c) := by
  unfold Session.configure
  by_cases hstate : s.state = .awaitingConfiguration
  · rw [if_neg (not_not.mpr hstate), if_neg (not_not.mpr (h.state.trans hstate)), h.plannedSteps]
    cases s.plannedSteps with
    | error e => exact h.refuse e
    | ok planned =>
      dsimp only
      split
      · obtain ⟨hid, journal, rfl⟩ := h
        exact ⟨rfl, hid, _, rfl⟩
      · exact h.refuse _
  · rw [if_pos hstate, if_pos (h.state ▸ hstate), h.notNow]
    exact h.refuse _

theorem submit : s.submit.Twins i j t.submit := by
  by_cases hstate : s.state = .awaitingConfiguration
  · have hcompiled : t.registry.compileAll t.execution.chosen t.execution.configs =
        s.registry.compileAll s.execution.chosen s.execution.configs := by
      rw [h.registry, h.execution]
    rw [submit_of_awaiting hstate, submit_of_awaiting (h.state.trans hstate), hcompiled]
    obtain ⟨hid, journal, rfl⟩ := h
    cases s.registry.compileAll s.execution.chosen s.execution.configs with
    | ok p => exact ⟨rfl, hid, _, rfl⟩
    | error e => exact ⟨rfl, hid, _, rfl⟩
  · unfold Session.submit
    rw [if_pos hstate, if_pos (h.state ▸ hstate), h.notNow]
    exact h.refuse _

/-! ## The steps of a run -/

theorem setStatus (index : Nat) (status : Status) :
    Twins i j (s.setStatus index status) (t.setStatus index status) := by
  obtain ⟨hid, journal, rfl⟩ := h
  exact ⟨hid, _, rfl⟩

theorem startStep (step : CompiledStep) : Twins i j (s.startStep step) (t.startStep step) := by
  obtain ⟨hid, journal, rfl⟩ := h
  exact ⟨hid, _, rfl⟩

theorem completeStep (step : CompiledStep) (elapsedMs : Nat) :
    Twins i j (s.completeStep step elapsedMs) (t.completeStep step elapsedMs) :=
  (h.setStatus step.index .done).announce _

theorem failStep (step : CompiledStep) (e : Error) :
    Twins i j (s.failStep step e) (t.failStep step e) :=
  ((h.setStatus step.index .failed).announce _).fail e

/-- Twins make the same request, each in its own name. -/
theorem exists_request (step : CompiledStep) (inputs : List Artifact) :
    ∃ q : Request, s.request step inputs = q.signed i ∧ t.request step inputs = q.signed j := by
  obtain ⟨rfl, journal, rfl⟩ := h
  exact ⟨s.request step inputs, rfl, rfl⟩

end Twins

/-! ## Runs that keep step -/

section Run

variable {ω ω' : Type} {e : Engine ω} {e' : Engine ω'} {i j : SessionId} {R : ω → ω' → Prop}

/-- The same result, twins behind it, and worlds that are related. -/
structure RunOutcome.Twins (R : ω → ω' → Prop) (i j : SessionId) (o : RunOutcome ω)
    (o' : RunOutcome ω') : Prop where
  result : o.result = o'.result
  session : Session.Twins i j o.session o'.session
  world : R o.world o'.world

namespace Moment

/-- **Moments of two runs that keep step.** -/
structure Twins (R : ω → ω' → Prop) (i j : SessionId) (m : Moment ω) (m' : Moment ω') : Prop where
  session : Session.Twins i j m.session m'.session
  inputs : m'.inputs = m.inputs
  reports : m'.reports = m.reports
  world : R m.world m'.world

end Moment

/-- Turns of two runs that keep step: both are over in the same way, or both go
on. -/
inductive Turn.Twins (R : ω → ω' → Prop) (i j : SessionId) : Turn ω → Turn ω' → Prop
  | over {o : RunOutcome ω} {o' : RunOutcome ω'} (h : o.Twins R i j o') :
      Twins R i j (.over o) (.over o')
  | on {m : Moment ω} {m' : Moment ω'} (h : m.Twins R i j m') : Twins R i j (.on m) (.on m')

theorem Twins.abandon {s t : Session} {w : ω} {w' : ω'} (h : Twins i j s t)
    (hmirrors : e.Mirrors e' i j R) (hworld : R w w') :
    (abandon e s w).Twins R i j (abandon e' t w') where
  result := rfl
  session := h.reset
  world := by
    obtain ⟨rfl, journal, rfl⟩ := h
    exact hmirrors.abandon w w' hworld

namespace Moment.Twins

variable {m : Moment ω} {m' : Moment ω'}

theorem begin (h : m.Twins R i j m') (hmirrors : e.Mirrors e' i j R) (step : CompiledStep) :
    (m.begin e step).Twins R i j (m'.begin e' step) := by
  have hstarted := h.session.startStep step
  obtain ⟨q, hq, hq'⟩ := hstarted.exists_request step m.inputs
  have hreply : SameReply R
      (e.abortsBefore ((m.session.startStep step).request step m.inputs) m.world)
      (e'.abortsBefore ((m'.session.startStep step).request step m'.inputs) m'.world) := by
    rw [h.inputs, hq, hq']
    exact hmirrors.abortsBefore q m.world m'.world h.world
  refine ⟨?_, h.inputs, h.reports, hreply.2⟩
  show Session.Twins i j ((m.session.startStep step).abortIf (e.abortsBefore _ _).1)
    ((m'.session.startStep step).abortIf (e'.abortsBefore _ _).1)
  rw [hreply.1]
  exact hstarted.abortIf _

/-- The same reply is settled in the same way. -/
theorem settle (h : m.Twins R i j m') (hmirrors : e.Mirrors e' i j R) (step : CompiledStep)
    {w : ω} {w' : ω'} (reply : Reply) (hworld : R w w') :
    Turn.Twins R i j (m.settle e step (reply, w)) (m'.settle e' step (reply, w')) := by
  cases reply with
  | interrupted => exact .over (h.session.abort.abandon hmirrors hworld)
  | finished result elapsedMs aborted =>
    cases result with
    | ok output =>
      refine .on ⟨(h.session.abortIf aborted).completeStep step elapsedMs, rfl, ?_, hworld⟩
      show m'.reports ++ _ = m.reports ++ _
      rw [h.reports]
    | error cause =>
      exact .over ⟨rfl, (h.session.abortIf aborted).failStep step _, hworld⟩

/-- **Each turn keeps step.** -/
theorem turn (h : m.Twins R i j m') (hmirrors : e.Mirrors e' i j R) (step : CompiledStep) :
    Turn.Twins R i j (m.turn e step) (m'.turn e' step) := by
  have hbegun := h.begin hmirrors step
  by_cases hpulled : (m.begin e step).session.switch = .pulled
  · have hpulled' := hbegun.session.switch.trans hpulled
    rw [turn_of_pulled hpulled, turn_of_pulled hpulled']
    exact .over (hbegun.session.abandon hmirrors hbegun.world)
  · have hpulled' : (m'.begin e' step).session.switch ≠ .pulled := by
      rw [hbegun.session.switch]
      exact hpulled
    obtain ⟨q, hq, hq'⟩ := hbegun.session.exists_request step m.inputs
    obtain ⟨hreply, hworld⟩ := hmirrors.call q _ _ hbegun.world
    rcases hcall : e.call (q.signed i) (m.begin e step).world with ⟨reply, w⟩
    rcases hcall' : e'.call (q.signed j) (m'.begin e' step).world with ⟨reply', w'⟩
    rw [hcall, hcall'] at hreply hworld
    obtain rfl : reply = reply' := hreply
    rw [turn_of_call hpulled (by rw [hq, hcall]),
      turn_of_call hpulled' (by rw [h.inputs, hq', hcall'])]
    exact hbegun.settle hmirrors step reply hworld

theorem conclude (h : m.Twins R i j m') : m.conclude.Twins R i j m'.conclude := by
  unfold Moment.conclude
  rw [h.inputs, h.reports]
  cases m.inputs.getLast? with
  | none => exact ⟨rfl, h.session, h.world⟩
  | some output => exact ⟨rfl, (h.session.announce _).enter .succeeded, h.world⟩

/-- So does the whole run. The induction is over the steps that are left. -/
theorem run (h : m.Twins R i j m') (hmirrors : e.Mirrors e' i j R) (steps : List CompiledStep) :
    (m.run e steps).Twins R i j (m'.run e' steps) := by
  induction steps generalizing m m' with
  | nil => exact h.conclude
  | cons step rest ih =>
    have hturn := h.turn hmirrors step
    unfold Moment.run
    generalize m.turn e step = first, m'.turn e' step = second at hturn ⊢
    obtain ⟨houtcome⟩ | ⟨hnext⟩ := hturn
    · exact houtcome
    · exact ih hnext

end Moment.Twins

/-- **Twins are run in the same way** by engines that mirror each other. -/
theorem Twins.run {s t : Session} (h : Twins i j s t) (hmirrors : e.Mirrors e' i j R)
    (intake : List Artifact) {w : ω} {w' : ω'} (hworld : R w w') :
    (s.run e intake w).Twins R i j (t.run e' intake w') := by
  unfold Session.run
  rw [h.state, h.pipeline, h.notNow]
  split
  · exact ⟨rfl, h, hworld⟩
  · split
    · exact ⟨rfl, h, hworld⟩
    · split
      · exact ⟨rfl, h.fail _, hworld⟩
      · rename_i p _ _ _
        have hopening : (s.opening intake w).Twins R i j (t.opening intake w') :=
          ⟨(h.withSwitch .armed).enter .running, rfl, rfl, hworld⟩
        obtain ⟨hresult, hsession, hworld⟩ := hopening.run hmirrors p.steps
        exact ⟨hresult, hsession.withSwitch .off, hworld⟩

end Run

end Session

end MediaPipeline
