import MediaPipeline.Proofs.Session.Rejection
import MediaPipeline.Proofs.Session.Twins
/-!
# Session/Residue — a reset forgets everything

What a session has been through must not show once it is reset. What can be
seen of a session is what it shows of itself, what its operations answer, and
what it asks of its engine (`history`). Two sessions are alike where all of it
is the same from now on, whatever is done to both and with whatever engines, as
long as these mirror each other. Twins are alike, by induction over what is
done (`Twins.history`), and a session that was reset is the twin of a new one
over the same registry (`twins_reset_start`). The action that clears a session
and a run that was cancelled reset it too, so they leave as little behind
(`no_residue`).
-/


namespace MediaPipeline

namespace Session

/-! ## What is seen of a session -/

/-- What is done to a session that has its engine. -/
inductive Act where
  | select (selections : List Selection)
  | configure (index : Nat) (c : Configuration)
  | submit
  | run (intake : List Artifact)
  | abort
  | reset

/-- What an act answers. -/
inductive Answer where
  | done (result : Except Error Unit)
  | compiled (result : Except Error Pipeline)
  | ran (result : Except Error Report)

/-- What an act answers, the session after it, and the engine's world after
it. -/
structure Effect (ω : Type) where
  answer : Answer
  session : Session
  world : ω

/-- The effect of an act. -/
def act {ω : Type} (e : Engine ω) (s : Session) (w : ω) : Act → Effect ω
  | .select selections =>
    let o := s.select selections
    ⟨.done o.result, o.session, w⟩
  | .configure index c =>
    let o := s.configure index c
    ⟨.done o.result, o.session, w⟩
  | .submit =>
    let o := s.submit
    ⟨.compiled o.result, o.session, w⟩
  | .run intake =>
    let o := s.run e intake w
    ⟨.ran o.result, o.session, o.world⟩
  | .abort => ⟨.done (.ok ()), s.abort, w⟩
  | .reset => ⟨.done (.ok ()), s.reset, w⟩

/-- What a session shows of itself. -/
structure View where
  state : State
  execution : Execution
  pipeline : Option Pipeline
  lastError : Option String
  plannedSteps : Except Error (List Planned)
  pendingConfiguration : Except Error (List Planned)

/-- What the session shows of itself. -/
def view (s : Session) : View where
  state := s.state
  execution := s.execution
  pipeline := s.pipeline
  lastError := s.lastError
  plannedSteps := s.plannedSteps
  pendingConfiguration := s.pendingConfiguration

/-- What is seen of an act: its answer, what it asks of the engine, and what the
session shows of itself after it. -/
structure Observation where
  answer : Answer
  exchanges : List Exchange
  view : View

/-- What is seen of an act whose engine kept a log of it. -/
def Effect.observation {ω : Type} (x : Effect (ω × List Exchange)) : Observation where
  answer := x.answer
  exchanges := x.world.2
  view := x.session.view

/-- An observation in the name of another session. -/
def Observation.signed (id : SessionId) (o : Observation) : Observation :=
  { o with exchanges := o.exchanges.map (Exchange.signed id) }

/-- What is seen of acts, one after the other, on the one engine. -/
def history {ω : Type} (e : Engine ω) (s : Session) (w : ω) : List Act → List Observation
  | [] => []
  | a :: rest =>
    let effect := s.act e.logged (w, []) a
    effect.observation :: effect.session.history e effect.world.1 rest

/-- **Sessions that are alike from now on:** they show the same, and whatever is
done to both, with engines that mirror each other, the same is seen of it, id
for id. -/
structure Alike (s t : Session) : Prop where
  view : s.view = t.view
  history : ∀ {ω ω' : Type} {e : Engine ω} {e' : Engine ω'} {R : ω → ω' → Prop},
    e.Mirrors e' s.id t.id R → ∀ w w', R w w' → ∀ acts,
      (s.history e w acts).map (Observation.signed t.id) = t.history e' w' acts

/-- In particular, the same is seen with the one engine, where it takes the
requests of the second session for those of the first. -/
theorem Alike.history_addressed {ω : Type} {s t : Session} (h : s.Alike t) (e : Engine ω) (w : ω)
    (acts : List Act) :
    (s.history e w acts).map (Observation.signed t.id) = t.history (e.addressed s.id) w acts :=
  h.history (e.mirrors_addressed s.id t.id) w w rfl acts

/-! ## Twins are alike -/

section Twins

variable {i j : SessionId} {s t : Session}

theorem Twins.view (h : Twins i j s t) : s.view = t.view := by
  unfold Session.view
  rw [h.state, h.execution, h.pipeline, h.lastError, h.plannedSteps, h.pendingConfiguration]

variable {ω ω' : Type} {e : Engine ω} {e' : Engine ω'} {R : ω → ω' → Prop} {w : ω} {w' : ω'}

/-- The same answer, twins behind it, and worlds that are related. -/
structure Effect.Twins (R : ω → ω' → Prop) (i j : SessionId) (x : Effect ω) (y : Effect ω') :
    Prop where
  answer : x.answer = y.answer
  session : Session.Twins i j x.session y.session
  world : R x.world y.world

theorem Twins.act (h : Twins i j s t) (hmirrors : e.Mirrors e' i j R) (hworld : R w w')
    (a : Act) : (s.act e w a).Twins R i j (t.act e' w' a) := by
  cases a with
  | select selections =>
    obtain ⟨hresult, hsession⟩ := h.select selections
    exact ⟨congrArg Answer.done hresult, hsession, hworld⟩
  | configure index c =>
    obtain ⟨hresult, hsession⟩ := h.configure index c
    exact ⟨congrArg Answer.done hresult, hsession, hworld⟩
  | submit =>
    obtain ⟨hresult, hsession⟩ := h.submit
    exact ⟨congrArg Answer.compiled hresult, hsession, hworld⟩
  | run intake =>
    obtain ⟨hresult, hsession, hworld⟩ := h.run hmirrors intake hworld
    exact ⟨congrArg Answer.ran hresult, hsession, hworld⟩
  | abort => exact ⟨rfl, h.abort, hworld⟩
  | reset => exact ⟨rfl, h.reset, hworld⟩

/-- What is seen of the act is the same, id for id. -/
theorem Effect.Twins.observation {x : Effect (ω × List Exchange)} {y : Effect (ω' × List Exchange)}
    (h : x.Twins (WithLogs R j) i j y) : x.observation.signed j = y.observation := by
  unfold Effect.observation Observation.signed
  rw [h.answer, h.session.view, h.world.2]

/-- **The same is seen of twins.** The induction is over the acts, each of which
leaves twins and related worlds to the next one. -/
theorem Twins.history (h : Twins i j s t) (hmirrors : e.Mirrors e' i j R) (hworld : R w w')
    (acts : List Act) :
    (s.history e w acts).map (Observation.signed j) = t.history e' w' acts := by
  induction acts generalizing s t w w' with
  | nil => rfl
  | cons a rest ih =>
    have hlogs : WithLogs R j (w, []) (w', []) := ⟨hworld, rfl⟩
    have heffect := h.act hmirrors.logged hlogs a
    exact congrArg₂ List.cons heffect.observation (ih heffect.session heffect.world.1)

theorem Twins.alike (h : Twins i j s t) : s.Alike t := by
  have hid : t.id = j := by
    obtain ⟨-, journal, rfl⟩ := h
    rfl
  refine ⟨h.view, fun hmirrors w w' hworld acts => ?_⟩
  rw [h.id, hid] at hmirrors
  rw [hid]
  exact h.history hmirrors hworld acts

end Twins

/-! ## What resets a session -/

/-- **A reset keeps the id, the registry and the journal,** and nothing else. -/
theorem reset_eq (s : Session) :
    s.reset = { start s.id s.registry with journal := s.reset.journal } := by
  by_cases hidle : s.state = .idle
  · have hreset : s.reset =
        { start s.id s.registry with state := s.state, journal := .reset :: s.journal } :=
      if_pos hidle
    rw [hreset, hidle]
    rfl
  · have hreset : s.reset = { start s.id s.registry with
        journal := [.stateChanged s.state.name State.idle.name, .reset] ++ s.journal } :=
      if_neg hidle
    rw [hreset]

theorem registry_reset (s : Session) : s.reset.registry = s.registry :=
  congrArg Prod.snd s.origin_reset

/-- Sessions in which nothing was done are twins, whatever they announced. -/
theorem twins_of_start {i j : SessionId} {r : Registry} (told told' : List Announcement) :
    Twins i j { start i r with journal := told } { start j r with journal := told' } :=
  ⟨rfl, told', rfl⟩

/-- **A session that was reset is the twin of a new one.** -/
theorem twins_reset_start (s : Session) (id : SessionId) :
    Twins s.id id s.reset (start id s.registry) := by
  rw [reset_eq]
  exact twins_of_start _ []

/-- And of itself, reset once more. -/
theorem twins_reset_reset (s : Session) : Twins s.id s.id s.reset.reset s.reset := by
  have hagain : s.reset.reset =
      { start s.id s.registry with journal := s.reset.reset.journal } := by
    have h := reset_eq s.reset
    rwa [id_reset, registry_reset] at h
  have htwins := twins_of_start (i := s.id) (j := s.id) (r := s.registry)
    s.reset.reset.journal s.reset.journal
  rwa [← hagain, ← reset_eq] at htwins

/-- A run that was cancelled left a session that was reset. -/
theorem Moment.exists_reset_of_cancelled {ω : Type} {e : Engine ω} {m : Moment ω}
    {steps : List CompiledStep} (h : (m.run e steps).result = .error .cancelled) :
    ∃ s : Session, s.origin = m.session.origin ∧ (m.run e steps).session = s.reset := by
  induction steps generalizing m with
  | nil =>
    have hconclude : m.conclude.result = .error .cancelled := h
    unfold Moment.conclude at hconclude
    cases hlast : m.inputs.getLast? <;> rw [hlast] at hconclude <;> cases hconclude
  | cons step rest ih =>
    have hbegin := origin_begin e m step
    rcases turn_cases e m step with ⟨aborted, w, hturn⟩ | ⟨cause, aborted, w, hturn⟩ |
      ⟨output, elapsedMs, aborted, w, hturn⟩
    · rw [run_of_over hturn]
      exact ⟨_, (origin_abortIf _ _).trans hbegin, rfl⟩
    · -- a step that failed is told as the failure of its engine
      rw [run_of_over hturn] at h
      obtain ⟨index, feature, reason, hfailure⟩ := exists_stepError step cause
      unfold Moment.stop at h
      rw [hfailure] at h
      cases h
    · rw [run_of_on hturn] at h ⊢
      obtain ⟨s, horigin, hreset⟩ := ih h
      exact ⟨s, horigin.trans ((origin_abortIf _ _).trans hbegin), hreset⟩

theorem exists_reset_of_cancelled {ω : Type} {s : Session} {e : Engine ω}
    {intake : List Artifact} {w : ω} (h : (s.run e intake w).result = .error .cancelled) :
    ∃ t : Session, t.origin = s.origin ∧ (s.run e intake w).session = t.reset := by
  by_cases hready : s.state = .ready
  · cases hp : s.pipeline with
    | none =>
      unfold Session.run at h
      rw [if_neg (not_not.mpr hready), hp] at h
      cases h
    | some p =>
      cases hcheck : p.checkInputs (intake.map (·.mediaType)) with
      | error err =>
        rw [run_of_refused hready hp hcheck] at h
        obtain ⟨first, why, -, -, rfl⟩ := Pipeline.checkInputs_eq_error.mp hcheck
        cases h
      | ok _ =>
        rw [run_of_taken hready hp hcheck] at h ⊢
        obtain ⟨t, horigin, hreset⟩ := Moment.exists_reset_of_cancelled h
        refine ⟨t, horigin, ?_⟩
        show { (Moment.run e (s.opening intake w) p.steps).session with switch := .off } = t.reset
        rw [hreset, switch_reset]
  · rw [run_of_not_ready hready] at h
    cases h

/-- **Nothing is left of what a session has been through** once it is reset, or
cleared by an action, or a run of it was cancelled: it is like a new session
over the same registry. And a second reset makes no difference. -/
theorem no_residue (s : Session) (id : SessionId) :
    s.reset.Alike (start id s.registry) ∧
      (∀ selection, s.registry.NamesAction selection →
        (s.select [selection]).session.Alike (start id s.registry)) ∧
      (∀ {ω : Type} (e : Engine ω) (intake : List Artifact) (w : ω),
        (s.run e intake w).result = .error .cancelled →
          (s.run e intake w).session.Alike (start id s.registry)) ∧
      s.reset.reset.Alike s.reset := by
  refine ⟨(twins_reset_start s id).alike, fun selection haction => ?_,
    fun e intake w hcancelled => ?_, (twins_reset_reset s).alike⟩
  · rw [select_of_action haction]
    exact (twins_reset_start s id).alike
  · obtain ⟨t, horigin, hreset⟩ := exists_reset_of_cancelled hcancelled
    have hregistry : t.registry = s.registry := congrArg Prod.snd horigin
    rw [hreset, ← hregistry]
    exact (twins_reset_start t id).alike

end Session

end MediaPipeline
