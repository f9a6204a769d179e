import MediaPipeline.Proofs.Registry.Compilation
import MediaPipeline.Proofs.Session.Turns
/-!
# Session/Consistency — what holds of a session after every operation

The fields of a session are set one by one, by five operations that may each
fail half way. `Standing` says how they fit together, state by state: what
was chosen, what it compiled to, and how far a run of it came. It holds of a
new session and is kept by every operation, whatever the engine does and
wherever a run is aborted (`Consistent.perform`), so it holds after any
sequence of operations.
-/


namespace MediaPipeline

open Traversal

/-- A selection names an action. -/
def Registry.NamesAction (r : Registry) (selection : Selection) : Prop :=
  ∃ node, r.get? selection.path = some node ∧ node.kind = .action

namespace Session

/-! ## States and what they imply -/

/-- A session in which nothing was submitted, compiled, run or found wrong. -/
structure Unbegun (s : Session) : Prop where
  submitted : s.execution.submitted = false
  currentStep : s.execution.currentStep = none
  statuses : s.execution.progress.entries = []
  pipeline : s.pipeline = none
  lastError : s.lastError = none

/-- A session with a choice that can be looked up, of which some planned steps
may be configured. -/
structure Awaits (s : Session) : Prop extends s.Unbegun where
  chosen : s.execution.chosen ≠ []
  resolves : ∀ selection ∈ s.execution.chosen, ∃ target, s.registry.resolve selection = .ok target
  configured : ∀ index ∈ Table.keys s.execution.configs.entries,
    ∃ planned, s.plannedSteps = .ok planned ∧ ∃ q ∈ planned, q.index = index

/-- A session with the pipeline that its choice compiles to. -/
structure Carries (s : Session) (p : Pipeline) : Prop where
  pipeline : s.pipeline = some p
  compiled : s.registry.compileAll s.execution.chosen s.execution.configs = .ok p

/-- **What the state of a session says of the rest of it.** -/
def Standing (s : Session) : Prop :=
  match s.state with
  | .idle => s.execution = {} ∧ s.pipeline = none ∧ s.lastError = none
  | .awaitingConfiguration => s.Awaits
  | .compiling | .running => False
  | .ready =>
    ∃ p, s.Carries p ∧ p.steps ≠ [] ∧
      s.execution.progress.entries = marked .pending p.steps ∧ s.execution.currentStep = none
  | .succeeded =>
    ∃ p last, s.Carries p ∧ s.execution.progress.entries = marked .done p.steps ∧
      p.steps.getLast? = some last ∧ s.execution.currentStep = some last.index
  | .failed =>
    s.lastError ≠ none ∧
      (s.pipeline = none ∧ s.execution.progress.entries = [] ∨
        ∃ p, s.Carries p ∧
          (s.execution.progress.entries = marked .pending p.steps ∨
            ∃ done step rest, p.steps = done ++ step :: rest ∧
              s.execution.progress.entries = brokenOff done step rest))

/-- A session between two operations: no run can be aborted, and the state
and the rest fit together. -/
structure Consistent (s : Session) : Prop where
  switch : s.switch = .off
  standing : s.Standing

variable {s : Session} {p : Pipeline}

theorem Carries.of_charge {s' : Session} (h : s.Carries p) (hcharge : s'.charge = s.charge) :
    s'.Carries p := by
  have hregistry : s'.registry = s.registry := congrArg Charge.registry hcharge
  have hchosen : s'.execution.chosen = s.execution.chosen := congrArg Charge.chosen hcharge
  have hconfigs : s'.execution.configs = s.execution.configs := congrArg Charge.configs hcharge
  have hpipeline : s'.pipeline = s.pipeline := congrArg Charge.pipeline hcharge
  exact ⟨hpipeline.trans h.pipeline, by rw [hregistry, hchosen, hconfigs, h.compiled]⟩

/-! ## New sessions and sessions that are reset -/

theorem consistent_start (id : SessionId) (r : Registry) : (start id r).Consistent :=
  ⟨rfl, rfl, rfl, rfl⟩

theorem standing_of_idle (hstate : s.state = .idle) (hexecution : s.execution = {})
    (hpipeline : s.pipeline = none) (herror : s.lastError = none) : s.Standing := by
  unfold Standing
  rw [hstate]
  exact ⟨hexecution, hpipeline, herror⟩

/-- A session is blank after a reset, whatever it was before. -/
theorem consistent_reset (s : Session) : s.reset.Consistent := by
  unfold Session.reset
  by_cases hidle : s.state = .idle
  · rw [if_pos hidle]
    exact ⟨rfl, standing_of_idle hidle rfl rfl rfl⟩
  · rw [if_neg hidle]
    exact ⟨rfl, standing_of_idle rfl rfl rfl rfl⟩

theorem state_reset (s : Session) : s.reset.state = .idle := by
  unfold Session.reset
  split
  · assumption
  · rfl

/-- A reset leaves no switch to turn off. -/
theorem switch_reset (s : Session) : { s.reset with switch := .off } = s.reset := by
  unfold Session.reset
  split <;> rfl

/-! ## Selecting and configuring -/

/-- Before a choice is submitted there is nothing of a run. -/
theorem Consistent.unbegun (h : s.Consistent)
    (hstate : s.state = .idle ∨ s.state = .awaitingConfiguration) : s.Unbegun := by
  have hstanding := h.standing
  unfold Standing at hstanding
  rcases hstate with hidle | hawaiting
  · rw [hidle] at hstanding
    obtain ⟨hexecution, hpipeline, herror⟩ := hstanding
    exact ⟨by rw [hexecution], by rw [hexecution], by rw [hexecution]; rfl, hpipeline, herror⟩
  · rw [hawaiting] at hstanding
    exact hstanding.toUnbegun

theorem Consistent.awaits (h : s.Consistent) (hstate : s.state = .awaitingConfiguration) :
    s.Awaits := by
  have hstanding := h.standing
  unfold Standing at hstanding
  rw [hstate] at hstanding
  exact hstanding

/-- A session that awaits configuration is consistent with what that implies. -/
theorem Awaits.consistent (h : s.Awaits) (hstate : s.state = .awaitingConfiguration)
    (hswitch : s.switch = .off) : s.Consistent := by
  refine ⟨hswitch, ?_⟩
  unfold Standing
  rw [hstate]
  exact h

theorem checkSelections_eq_ok {selections : List Selection} :
    s.checkSelections selections = .ok () ↔
      (s.state = .idle ∨ s.state = .awaitingConfiguration) ∧ selections ≠ [] ∧
        ∀ selection ∈ selections, ∃ target, s.registry.resolve selection = .ok target := by
  unfold checkSelections
  by_cases hstate : s.state ≠ .idle ∧ s.state ≠ .awaitingConfiguration
  · rw [if_pos hstate]
    simp [hstate.1, hstate.2]
  · rw [if_neg hstate]
    have hallowed : s.state = .idle ∨ s.state = .awaitingConfiguration := by
      by_contra hnot
      exact hstate (not_or.mp hnot)
    by_cases hnil : selections = []
    · simp [hnil]
    · rw [if_neg hnil]
      rw [Traversal.forM_eq_ok]
      simp only [Traversal.map_eq_ok, and_true]
      exact ⟨fun h => ⟨hallowed, hnil, h⟩, fun h => h.2.2⟩

/-- There is an action among the kinds of selections where one of them names
one. -/
theorem action_mem_kinds {kinds : List Registry.Kind} (h : s.kinds selections = .ok kinds) :
    .action ∈ kinds ↔ ∃ selection ∈ selections, s.registry.NamesAction selection := by
  have hall := mapM_eq_ok.mp h
  clear h
  induction hall with
  | nil => simp
  | @cons selection kind rest kinds hkind _ ih =>
    have hhere : kind = .action ↔ s.registry.NamesAction selection := by
      unfold Registry.NamesAction
      cases hget : s.registry.get? selection.path with
      | none => simp [hget] at hkind
      | some node =>
        rw [hget] at hkind
        cases hkind
        simp
    refine (List.mem_cons.trans (or_congr ?_ ih)).trans (List.exists_mem_cons_iff _ _ _).symm
    rw [eq_comm, hhere]

/-- **What a selection may do:** it is refused, it is a single action and clears
the session, or it is checked and chosen. -/
theorem select_cases (s : Session) (selections : List Selection) :
    (∃ e, s.select selections = s.refuse e) ∨
      (∃ selection, selections = [selection] ∧ s.registry.NamesAction selection) ∧
        s.select selections = ⟨.ok (), s.reset⟩ ∨
      s.checkSelections selections = .ok () ∧
        s.select selections = ⟨.ok (), s.choose selections⟩ := by
  unfold Session.select
  cases hkinds : s.kinds selections with
  | error e => exact .inl ⟨e, rfl⟩
  | ok kinds =>
    dsimp only
    by_cases haction : .action ∈ kinds
    · rw [if_pos haction]
      by_cases hmany : 1 < selections.length
      · rw [if_pos hmany]
        exact .inl ⟨_, rfl⟩
      · rw [if_neg hmany]
        obtain ⟨selection, hmem, hnames⟩ := (action_mem_kinds hkinds).mp haction
        have hpos : 0 < selections.length := List.length_pos_of_mem hmem
        obtain ⟨only, rfl⟩ := List.length_eq_one_iff.mp (by omega : selections.length = 1)
        rw [List.mem_singleton.mp hmem] at hnames
        exact .inr (.inl ⟨⟨only, rfl, hnames⟩, rfl⟩)
    · rw [if_neg haction]
      cases hcheck : s.checkSelections selections with
      | error e => exact .inl ⟨e, rfl⟩
      | ok _ => exact .inr (.inr ⟨rfl, rfl⟩)

theorem Consistent.select (h : s.Consistent) (selections : List Selection) :
    (s.select selections).session.Consistent := by
  rcases s.select_cases selections with ⟨e, heq⟩ | ⟨-, heq⟩ | ⟨hcheck, heq⟩
  · rw [heq]
    exact h
  · rw [heq]
    exact consistent_reset s
  · obtain ⟨hstate, hchosen, hresolves⟩ := checkSelections_eq_ok.mp hcheck
    have hunbegun := h.unbegun hstate
    rw [heq]
    -- no step is configured yet: a new choice drops every configuration
    refine Awaits.consistent ?_ rfl h.switch
    exact {
      submitted := hunbegun.submitted
      currentStep := hunbegun.currentStep
      statuses := hunbegun.statuses
      pipeline := hunbegun.pipeline
      lastError := hunbegun.lastError
      chosen := hchosen
      resolves := hresolves
      configured := fun _ hindex => absurd hindex List.not_mem_nil }

theorem Consistent.configure (h : s.Consistent) (index : Nat) (c : Configuration) :
    (s.configure index c).session.Consistent := by
  unfold Session.configure
  by_cases hstate : s.state ≠ .awaitingConfiguration
  · rw [if_pos hstate]
    exact h
  · rw [if_neg hstate]
    have hstate := not_not.mp hstate
    have hawaits := h.awaits hstate
    cases hplanned : s.plannedSteps with
    | error e => exact h
    | ok planned =>
      dsimp only
      split
      · rename_i hany
        obtain ⟨q, hq, hindex⟩ := List.any_eq_true.mp hany
        refine Awaits.consistent ?_ hstate h.switch
        refine { hawaits with configured := fun i hi => ?_ }
        -- the plan depends on the choice only, so it is still the same
        rcases Table.mem_keys_alter.mp hi with rfl | hi
        · exact ⟨planned, hplanned, q, hq, beq_iff_eq.mp hindex⟩
        · exact hawaits.configured i hi
      · exact h

/-! ## Compiling -/

/-- A session that awaits configuration compiles what was chosen. -/
theorem submit_of_awaiting (h : s.state = .awaitingConfiguration) :
    s.submit =
      match s.registry.compileAll s.execution.chosen s.execution.configs with
      | .ok p =>
        ⟨.ok p, ({ s with execution := { s.execution with submitted := true } }.enter
          .compiling).accept p⟩
      | .error e =>
        ⟨.error e, (({ s with execution := { s.execution with submitted := true } }.enter
          .compiling).announce (.compileFailed e.message)).fail e⟩ :=
  if_neg (not_not.mpr h)

theorem Consistent.submit (h : s.Consistent) : s.submit.session.Consistent := by
  by_cases hstate : s.state = .awaitingConfiguration
  · have hawaits := h.awaits hstate
    rw [submit_of_awaiting hstate]
    cases hcompiled : s.registry.compileAll s.execution.chosen s.execution.configs with
    | ok p =>
      refine ⟨h.switch, p, ⟨rfl, hcompiled⟩, Registry.ne_nil_of_compileAll hcompiled, ?_,
        hawaits.currentStep⟩
      exact ProgressTable.entries_pending (Registry.map_index_of_compileAll hcompiled)
    | error e =>
      exact ⟨h.switch, Option.some_ne_none _, .inl ⟨hawaits.pipeline, hawaits.statuses⟩⟩
  · rw [show s.submit = s.refuse (s.notNow "submit") from if_pos hstate]
    exact h

/-! ## Running -/

/-- **A session that a run left is consistent** once the switch is off. -/
theorem Left.consistent {base : Session} (h : Left base p.steps s) (hp : base.Carries p)
    (hne : p.steps ≠ []) : Consistent { s with switch := .off } := by
  cases h with
  | reset s =>
    -- an aborted run was reset, which turned the switch off already
    rw [switch_reset]
    exact consistent_reset s
  | failed charge state error split statuses =>
    refine ⟨rfl, ?_⟩
    unfold Standing
    rw [show Session.state _ = .failed from state]
    exact ⟨error, .inr ⟨p, hp.of_charge charge, .inr ⟨_, _, _, split, statuses⟩⟩⟩
  | succeeded charge state statuses current =>
    refine ⟨rfl, ?_⟩
    unfold Standing
    rw [show Session.state _ = .succeeded from state]
    have hlast := List.getLast?_eq_some_getLast hne
    rw [hlast] at current
    exact ⟨p, _, hp.of_charge charge, statuses, hlast, current⟩

theorem Consistent.ready (h : s.Consistent) (hstate : s.state = .ready) :
    ∃ p, s.Carries p ∧ p.steps ≠ [] ∧
      s.execution.progress.entries = marked .pending p.steps ∧
      s.execution.currentStep = none := by
  have hstanding := h.standing
  unfold Standing at hstanding
  rw [hstate] at hstanding
  exact hstanding

theorem Consistent.run {ω : Type} (h : s.Consistent) (e : Engine ω) (intake : List Artifact)
    (w : ω) : (s.run e intake w).session.Consistent := by
  by_cases hready : s.state = .ready
  · obtain ⟨p, hp, hne, hstatuses, hcurrent⟩ := h.ready hready
    cases hcheck : p.checkInputs (intake.map (·.mediaType)) with
    | error err =>
      rw [run_of_refused hready hp.pipeline hcheck]
      exact ⟨h.switch, Option.some_ne_none _, .inr ⟨p, hp.of_charge rfl, .inl hstatuses⟩⟩
    | ok _ =>
      rw [run_of_taken hready hp.pipeline hcheck]
      have hleft := (opening_between hstatuses hcurrent intake w).run hne e
      exact hleft.consistent hp hne
  · rw [run_of_not_ready hready]
    exact h

/-! ## Any sequence of operations -/

/-- An operation on a session, with what it is given. A run brings its engine,
which answers as it likes and may report an abort at any of its steps. -/
inductive Operation : Type 1 where
  | select (selections : List Selection)
  | configure (index : Nat) (c : Configuration)
  | submit
  | run {ω : Type} (e : Engine ω) (intake : List Artifact) (w : ω)
  | abort
  | reset

/-- The session after an operation. -/
def perform (s : Session) : Operation → Session
  | .select selections => (s.select selections).session
  | .configure index c => (s.configure index c).session
  | .submit => s.submit.session
  | .run e intake w => (s.run e intake w).session
  | .abort => s.abort
  | .reset => s.reset

/-- The session after operations on a new one. -/
def after (id : SessionId) (r : Registry) (operations : List Operation) : Session :=
  operations.foldl perform (start id r)

/-- **No operation changes where a session comes from.** -/
theorem origin_perform (s : Session) (operation : Operation) :
    (s.perform operation).origin = s.origin := by
  cases operation with
  | select selections =>
    show (s.select selections).session.origin = s.origin
    rcases s.select_cases selections with ⟨e, heq⟩ | ⟨-, heq⟩ | ⟨-, heq⟩
    · rw [heq]
      rfl
    · rw [heq, origin_reset]
    · rw [heq]
      rfl
  | configure index c =>
    show (s.configure index c).session.origin = s.origin
    unfold Session.configure
    split
    · rfl
    · split
      · rfl
      · split <;> rfl
  | submit =>
    show s.submit.session.origin = s.origin
    unfold Session.submit
    split
    · rfl
    · dsimp only
      split <;> rfl
  | run e intake w => exact origin_run s e intake w
  | abort => exact s.origin_abort
  | reset => exact s.origin_reset

theorem origin_foldl (s : Session) (operations : List Operation) :
    (operations.foldl perform s).origin = s.origin := by
  induction operations generalizing s with
  | nil => rfl
  | cons operation rest ih => exact (ih (s.perform operation)).trans (origin_perform s operation)

theorem registry_after (id : SessionId) (r : Registry) (operations : List Operation) :
    (after id r operations).registry = r :=
  congrArg Prod.snd (origin_foldl (start id r) operations)

/-- Outside a run there is nothing to abort. -/
theorem abort_of_off (h : s.switch = .off) : s.abort = s := by
  unfold Session.abort
  rw [h]

/-- **Every operation keeps a session consistent.** -/
theorem Consistent.perform (h : s.Consistent) (operation : Operation) :
    (s.perform operation).Consistent := by
  cases operation with
  | select selections => exact h.select selections
  | configure index c => exact h.configure index c
  | submit => exact h.submit
  | run e intake w => exact h.run e intake w
  | abort =>
    show s.abort.Consistent
    rw [abort_of_off h.switch]
    exact h
  | reset => exact consistent_reset s

theorem Consistent.foldl (h : s.Consistent) (operations : List Operation) :
    (operations.foldl Session.perform s).Consistent := by
  induction operations generalizing s with
  | nil => exact h
  | cons operation rest ih => exact ih (h.perform operation)

/-- A session that operations on a new one lead to. -/
def Reachable (s : Session) : Prop := ∃ id r operations, s = after id r operations

theorem Reachable.consistent (h : s.Reachable) : s.Consistent := by
  obtain ⟨id, r, operations, rfl⟩ := h
  exact (consistent_start id r).foldl operations

/-- **A session is consistent after any sequence of operations,** over every
registry. -/
theorem after_consistent (id : SessionId) (r : Registry) (operations : List Operation) :
    (after id r operations).Consistent :=
  (consistent_start id r).foldl operations

end Session

end MediaPipeline
