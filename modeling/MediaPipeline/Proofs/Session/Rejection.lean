import MediaPipeline.Proofs.Session.Course
import MediaPipeline.Proofs.Session.Failures
/-!
# Session/Rejection — what is rejected leaves no trace

An operation checks everything before it changes or announces anything, so one
that is rejected leaves the session exactly as it was, its journal included,
and has asked nothing of the engine (`Atomic`). A submission that came at the
wrong time is rejected; but a feature may answer in the same words when it is
compiled, and its answer ends the work of the session like any other failure of
compilation (`PassesOn`, `not_atomic_overdue`). The features of this library
never answer so (`timely_builtin`).

The one way through a selection that skips the check of the state is the action
that clears the session. It is taken for a single selection whose path names an
action, in any state, and for no other list (`session_select_eq_reset`): next to
other commands an action is refused like anything else that cannot be chosen
(`select_of_mixed`).
-/


namespace MediaPipeline

open Traversal

/-- **A feature that never answers that something came at the wrong time.** -/
def Feature.Timely (f : Feature) : Prop :=
  ∀ given state action, f.compile given ≠ .error (.transition state action)

/-- The features of this library only blame what they were given. -/
theorem timely_builtin {e : Entry} (he : e ∈ FeatureCatalog.builtin.entries) :
    e.feature.Timely := by
  intro given state action hanswer
  cases isUserError_of_builtin he given _ hanswer

namespace Session

variable {s : Session} {selections : List Selection}

/-! ## Selecting an action -/

/-- **An action cannot be combined with other commands,** in whatever state. -/
theorem select_of_mixed (hmany : 1 < selections.length)
    (haction : ∃ selection ∈ selections, s.registry.NamesAction selection) :
    ∃ e, s.select selections = s.refuse e := by
  unfold Session.select
  cases hkinds : s.kinds selections with
  | error e => exact ⟨e, rfl⟩
  | ok kinds =>
    dsimp only
    rw [if_pos ((action_mem_kinds hkinds).mpr haction), if_pos hmany]
    exact ⟨_, rfl⟩

theorem select_of_action {selection : Selection} (h : s.registry.NamesAction selection) :
    s.select [selection] = ⟨.ok (), s.reset⟩ := by
  obtain ⟨node, hget, hkind⟩ := h
  have hkinds : s.kinds [selection] = .ok [.action] := by
    refine mapM_eq_ok.mpr (.cons ?_ .nil)
    rw [hget, ← hkind]
  unfold Session.select
  rw [hkinds]
  rfl

/-- A reset is always announced. -/
theorem reset_ne (s : Session) : s.reset ≠ s := by
  intro h
  have hlog := log_reset s
  rw [h] at hlog
  cases List.self_eq_append_right.mp hlog

/-- **A selection clears the session where it is a single action,** and only
there. Any other one leaves it or brings it to await configuration. -/
theorem session_select_eq_reset :
    (s.select selections).session = s.reset ↔
      ∃ selection, selections = [selection] ∧ s.registry.NamesAction selection := by
  constructor
  · intro h
    rcases s.select_cases selections with ⟨e, hrefused⟩ | ⟨hsingle, -⟩ | ⟨-, hchosen⟩
    · rw [hrefused] at h
      exact absurd h.symm s.reset_ne
    · exact hsingle
    · -- what was chosen awaits configuration, and a session that was reset does not
      rw [hchosen] at h
      have hstate := congrArg Session.state h
      rw [state_reset] at hstate
      cases hstate
  · rintro ⟨selection, rfl, hnames⟩
    rw [select_of_action hnames]

/-! ## Rejected operations -/

theorem session_select_of_error {e : Error} (h : (s.select selections).result = .error e) :
    (s.select selections).session = s := by
  rcases s.select_cases selections with ⟨_, heq⟩ | ⟨-, heq⟩ | ⟨-, heq⟩
  · rw [heq]
    rfl
  · rw [heq] at h
    cases h
  · rw [heq] at h
    cases h

theorem session_configure_of_error {index : Nat} {c : Configuration} {e : Error}
    (h : (s.configure index c).result = .error e) : (s.configure index c).session = s := by
  unfold Session.configure at h ⊢
  split
  · rfl
  · rename_i hstate
    rw [if_neg hstate] at h
    split
    · rfl
    · rename_i planned hplanned
      rw [hplanned] at h
      dsimp only at h
      split
      · rename_i hany
        rw [if_pos hany] at h
        cases h
      · rfl

/-- A submission passes a failure on that a feature answered with when it was
compiled. -/
def PassesOn (s : Session) (e : Error) : Prop :=
  s.state = .awaitingConfiguration ∧
    s.registry.Answers s.execution.chosen s.execution.configs e

/-- **What is told to have come at the wrong time** was rejected, or a feature
told it. -/
theorem session_submit_of_transition {state action : String}
    (h : s.submit.result = .error (.transition state action)) :
    s.submit.session = s ∨ s.PassesOn (.transition state action) := by
  by_cases hstate : s.state = .awaitingConfiguration
  · rcases s.submit_fails _ h with ⟨hrefused, -⟩ | hchoice | hanswers
    · rw [hrefused]
      exact .inl rfl
    · exact hchoice.elim
    · exact .inr ⟨hstate, hanswers⟩
  · have hrefused : s.submit = s.refuse (s.notNow "submit") := if_pos hstate
    rw [hrefused]
    exact .inl rfl

/-- **A session that every operation leaves as it is which it rejects:**
whatever is wrong with a selection or a configuration, and wherever compiling
or running comes at the wrong time. An engine that keeps a log was then asked
nothing. What a submission passes on is no rejection; `passed` says which
failures these are. -/
structure Atomic (s : Session) (passed : Error → Prop) : Prop where
  select : ∀ selections e, (s.select selections).result = .error e →
    (s.select selections).session = s
  configure : ∀ index c e, (s.configure index c).result = .error e →
    (s.configure index c).session = s
  submit : ∀ state action, s.submit.result = .error (.transition state action) →
    ¬ passed (.transition state action) → s.submit.session = s
  run : ∀ {ω : Type} (e : Engine ω) intake w state action,
    (s.run e.logged intake (w, [])).result = .error (.transition state action) →
    (s.run e.logged intake (w, [])).session = s ∧
      (s.run e.logged intake (w, [])).world = (w, [])
  clears : ∀ selections, (s.select selections).session = s.reset ↔
    ∃ selection, selections = [selection] ∧ s.registry.NamesAction selection
  mixed : ∀ selections, 1 < selections.length →
    (∃ selection ∈ selections, s.registry.NamesAction selection) →
    (s.select selections).session = s ∧ ∃ e, (s.select selections).result = .error e

theorem Consistent.atomic (h : s.Consistent) : s.Atomic s.PassesOn where
  select selections e := session_select_of_error
  configure index c e := session_configure_of_error
  submit state action herror hown := (session_submit_of_transition herror).resolve_right hown
  run e intake w state action herror := by
    rcases h.run_fails e.logged intake (w, []) _ herror with ⟨hrefused, -⟩ | hrun
    · rw [hrefused]
      exact ⟨rfl, rfl⟩
    · exact hrun.elim
  clears selections := session_select_eq_reset
  mixed selections hmany haction := by
    obtain ⟨e, hrefused⟩ := select_of_mixed hmany haction
    rw [hrefused]
    exact ⟨rfl, e, rfl⟩

/-- Timely features leave nothing to pass on. -/
theorem not_passesOn_of_timely
    (htimely : ∀ e ∈ s.registry.catalogs.features.entries, e.feature.Timely)
    (state action : String) : ¬ s.PassesOn (.transition state action) := by
  rintro ⟨-, hanswers⟩
  obtain ⟨e, he, given, hanswer⟩ := hanswers.exists_entry
  exact htimely e he given state action hanswer

/-- **Rejected operations are atomic,** after any sequence of operations. A
submission that is told to have come at the wrong time was rejected, unless a
feature told it; over features that never do, as those of this library, there is
no exception. -/
theorem after_atomic (id : SessionId) (r : Registry) (operations : List Operation) :
    (after id r operations).Atomic (after id r operations).PassesOn ∧
      ((∀ e ∈ r.catalogs.features.entries, e.feature.Timely) →
        (after id r operations).Atomic fun _ => False) ∧
      ∀ e ∈ FeatureCatalog.builtin.entries, e.feature.Timely := by
  have hatomic := ((consistent_start id r).foldl operations).atomic
  refine ⟨hatomic, fun htimely => ?_, fun _ => timely_builtin⟩
  rw [← registry_after id r operations] at htimely
  exact { hatomic with
    submit := fun state action herror _ =>
      hatomic.submit state action herror (not_passesOn_of_timely htimely state action) }

/-- A command that was compiled and is submitted once more. -/
theorem after_atomic_newsreels :
    ∃ r s, Registry.build Registry.newsreels {} = .ok r ∧
      s = after ⟨⟨0⟩⟩ r [.select [⟨"Workflows/Newsreel", [0]⟩], .submit] ∧
      (∀ e ∈ r.catalogs.features.entries, e.feature.Timely) ∧ (s.Atomic fun _ => False) ∧
      s.submit.result = .error (.transition "Ready" "submit") ∧ s.submit.session = s := by
  have hagain : ∃ r s, Registry.build Registry.newsreels {} = .ok r ∧
      s = after ⟨⟨0⟩⟩ r [.select [⟨"Workflows/Newsreel", [0]⟩], .submit] ∧
      s.submit.result = .error (.transition "Ready" "submit") := ⟨_, _, by cbv, rfl, by cbv⟩
  obtain ⟨r, s, hbuild, rfl, hrefused⟩ := hagain
  obtain ⟨-, hatomic, hbuiltin⟩ := after_atomic ⟨⟨0⟩⟩ r
    [.select [⟨"Workflows/Newsreel", [0]⟩], .submit]
  have htimely : ∀ e ∈ r.catalogs.features.entries, e.feature.Timely := by
    intro e he
    rw [Registry.catalogs_of_build hbuild] at he
    exact hbuiltin e (Registry.mem_builtin_of_newsreels he)
  exact ⟨r, _, hbuild, rfl, htimely, hatomic htimely, hrefused,
    (hatomic htimely).submit _ _ hrefused not_false⟩

/-- A feature that finds every configuration too late. -/
def overdue : Entry :=
  { Entry.grayscale with
    key := "OVERDUE"
    name := "Overdue"
    feature := ⟨fun _ => .error (.transition "Idle" "compile")⟩ }

/-- A catalog with nothing else. -/
def overdues : Catalogs := ⟨⟨[overdue]⟩, ⟨[]⟩⟩

/-- **A submission that is told to have come at the wrong time may have been
made,** where a feature tells it: the session has then failed. And the action
that clears the session is taken whatever children are asked of it, though it has
none. -/
theorem not_atomic_overdue :
    ∃ r s, Registry.build overdues {} = .ok r ∧
      s = after ⟨⟨0⟩⟩ r [.select [⟨"Features/Overdue", []⟩]] ∧
      s.submit.result = .error (.transition "Idle" "compile") ∧
      s.submit.session.state = .failed ∧ (¬ s.Atomic fun _ => False) ∧
      ∃ clear, r.get? "Clear" = some clear ∧ clear.child = [] ∧
        (s.select [⟨"Clear", [0]⟩]).session = s.reset := by
  have hsession : ∃ r s, Registry.build overdues {} = .ok r ∧
      s = after ⟨⟨0⟩⟩ r [.select [⟨"Features/Overdue", []⟩]] ∧
      s.state = .awaitingConfiguration ∧
      s.registry.compileAll s.execution.chosen s.execution.configs =
        .error (.transition "Idle" "compile") ∧
      ∃ clear, r.get? "Clear" = some clear ∧ clear.kind = .action ∧ clear.child = [] :=
    ⟨_, _, by cbv, rfl, by cbv, by cbv, _, by cbv, by cbv, by cbv⟩
  obtain ⟨r, s, hbuild, hs, hawaits, hcompiled, clear, hclear, haction, hnone⟩ := hsession
  have hnames : s.registry.NamesAction ⟨"Clear", [0]⟩ := by
    rw [hs, registry_after]
    exact ⟨clear, hclear, haction⟩
  have hsubmit := submit_of_awaiting hawaits
  rw [hcompiled] at hsubmit
  refine ⟨r, s, hbuild, hs, by rw [hsubmit], by rw [hsubmit]; rfl, fun hatomic => ?_, clear,
    hclear, hnone, by rw [select_of_action hnames]⟩
  have hstate := congrArg Session.state
    (hatomic.submit "Idle" "compile" (by rw [hsubmit]) not_false)
  rw [hsubmit, hawaits] at hstate
  cases hstate

end Session

end MediaPipeline
