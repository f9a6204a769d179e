import MediaPipeline.Proofs.Session.Watching
/-!
# Session/Abort — which aborts take effect

A run is decided by the result of its last step, or by the first failure. An
abort before that ends the run: nothing more is requested, the engine clears
up once, and the session is blank again. One that comes later changes
nothing, and neither does one outside a run.

The signs of a run that is abandoned and of one that ends by itself follow two
grammars, `Abandoned` and `Finished`. What aborts do is read off them, sign by
sign. A run that nobody has aborted yet goes on by one of the two (`Ends`,
`continues`): each turn that does not end it leaves it unaborted, or aborted
while its request ended.
-/


namespace MediaPipeline

/-! ## When a run is decided -/

/-- Whether the signs hold what decides a run over `n` steps: a failure, or
the success of all of them. -/
def Decided (n : Nat) (signs : List Sign) : Prop :=
  (∃ cause, .observed (.error cause) ∈ signs) ∨ n ≤ signs.countP Sign.isSuccess

/-- Whether a run over `n` steps is settled at an abort between two parts of
its signs: it is decided by what came before, or by a result directly behind
the abort, which comes while the request ends. -/
def Settled (n : Nat) (before after : List Sign) : Prop :=
  Decided n (before ++ after.takeWhile Sign.isResult)

section Decided

variable {n : Nat} {signs before after : List Sign} {request : Request} {output : Artifact}

theorem Decided.of_sublist (h : Decided n before) (hsub : before.Sublist signs) :
    Decided n signs := by
  rcases h with ⟨cause, hcause⟩ | hcount
  · exact .inl ⟨cause, hsub.mem hcause⟩
  · exact .inr (hcount.trans (hsub.countP_le))

/-- A step that succeeded leaves one step less to be decided. -/
theorem decided_next :
    Decided (n + 1) (.called request :: .observed (.ok output) :: signs) ↔ Decided n signs := by
  simp [Decided, Sign.isSuccess, List.countP_cons]

theorem Settled.decided (h : Settled n before after) : Decided n (before ++ .aborted :: after) := by
  refine h.of_sublist (List.Sublist.append_left ?_ before)
  exact (List.takeWhile_sublist Sign.isResult).cons Sign.aborted

/-- What is behind an abort is behind the first sign; so if no request is, there
is none behind the abort either. -/
theorem calls_behind_first {first : Sign} (h : first :: signs = before ++ .aborted :: after)
    (hsigns : signs.filter Sign.isCall = []) : after.filter Sign.isCall = [] := by
  have hsub : after.Sublist signs := by
    rcases List.cons_eq_append_iff.mp h with ⟨-, hall⟩ | ⟨before', -, hrest⟩
    · rw [(List.cons.inj hall).2]
    · rw [hrest]
      exact (List.sublist_cons_self Sign.aborted after).trans (List.sublist_append_right before' _)
  have hcalls := hsub.filter Sign.isCall
  rw [hsigns] at hcalls
  exact List.sublist_nil.mp hcalls

/-- A result that comes with an abort counts as coming before it. -/
theorem result_mem_of_split {result : Except Error Artifact} {elapsedMs : Nat}
    {early aborted : Bool}
    (h : .called request :: (Reply.finished result elapsedMs aborted).signs early =
      before ++ .aborted :: after) :
    .observed result ∈ before ++ after.takeWhile Sign.isResult := by
  cases aborted with
  | false => simp [List.cons_eq_append_iff, Reply.signs] at h
  | true =>
    cases early with
    | false =>
      have hparts : before = [.called request, .observed result] ∧ after = [] := by
        simpa [List.cons_eq_append_iff, Reply.signs] using h
      simp [hparts.1]
    | true =>
      have hparts : before = [.called request] ∧ after = [.observed result] := by
        simpa [List.cons_eq_append_iff, Reply.signs] using h
      simp [hparts.2, List.takeWhile, Sign.isResult]

/-- An abort in a run whose first step succeeded is one in the rest of it. -/
theorem exists_split_next
    (h : .called request :: .observed (.ok output) :: signs = before ++ .aborted :: after) :
    ∃ before', before = .called request :: .observed (.ok output) :: before' ∧
      signs = before' ++ .aborted :: after := by
  simpa [List.cons_eq_append_iff] using h

end Decided

/-! ## The signs of a run -/

/-- **The signs of a run over `n` steps that is abandoned.** The abort comes
before a request, while one is pending, or while one ends that is not the
last; what succeeded before does not matter. -/
inductive Abandoned (session : SessionId) : Nat → List Sign → Prop where
  | before {n : Nat} : Abandoned session (n + 1) [.aborted, .abandoned session]
  | pending {n : Nat} (request : Request) :
      Abandoned session (n + 1) [.called request, .aborted, .abandoned session]
  | between {n : Nat} (request : Request) (output : Artifact) (elapsedMs : Nat)
      (early again : Bool) :
      Abandoned session (n + 2) (.called request ::
        ((Reply.finished (.ok output) elapsedMs true).signs early ++
          (Sign.abortIf again ++ [.abandoned session])))
  | next {n : Nat} {signs : List Sign} (request : Request) (output : Artifact)
      (rest : Abandoned session n signs) :
      Abandoned session (n + 1) (.called request :: .observed (.ok output) :: signs)

/-- **The signs of a run over `n` steps that ends by itself.** The one abort
there may be comes while the request ends that decides the run. -/
inductive Finished : Nat → List Sign → Prop where
  | done : Finished 0 []
  | failed {n : Nat} (request : Request) (cause : Error) (elapsedMs : Nat)
      (early aborted : Bool) :
      Finished (n + 1)
        (.called request :: (Reply.finished (.error cause) elapsedMs aborted).signs early)
  | last (request : Request) (output : Artifact) (elapsedMs : Nat) (early : Bool) :
      Finished 1 (.called request :: (Reply.finished (.ok output) elapsedMs true).signs early)
  | next {n : Nat} {signs : List Sign} (request : Request) (output : Artifact)
      (rest : Finished n signs) :
      Finished (n + 1) (.called request :: .observed (.ok output) :: signs)

namespace Abandoned

variable {session : SessionId} {n : Nat} {signs before after : List Sign}

/-- A run that is abandoned is never decided. -/
theorem not_decided (h : Abandoned session n signs) : ¬ Decided n signs := by
  induction h with
  | before => simp [Decided, Sign.isSuccess]
  | pending request => simp [Decided, Sign.isSuccess]
  | between request output elapsedMs early again =>
    cases early <;> cases again <;>
      simp [Decided, Reply.signs, Sign.abortIf, Sign.isSuccess, List.countP_cons]
  | next request output rest ih => exact fun hdecided => ih (decided_next.mp hdecided)

theorem clearing (h : Abandoned session n signs) :
    signs.filter Sign.isClearing = [.abandoned session] := by
  induction h with
  | before => rfl
  | pending request => rfl
  | between request output elapsedMs early again => cases early <;> cases again <;> rfl
  | next request output rest ih => exact ih

theorem aborted_mem (h : Abandoned session n signs) : .aborted ∈ signs := by
  induction h with
  | before => simp
  | pending request => simp
  | between request output elapsedMs early again => cases early <;> simp [Reply.signs]
  | next request output rest ih => simp [ih]

/-- Nothing is requested behind an abort. -/
theorem calls_behind (h : Abandoned session n signs) (hsplit : signs = before ++ .aborted :: after) :
    after.filter Sign.isCall = [] := by
  induction h generalizing before with
  | before => exact calls_behind_first hsplit rfl
  | pending request => exact calls_behind_first hsplit rfl
  | between request output elapsedMs early again =>
    refine calls_behind_first hsplit ?_
    cases early <;> cases again <;> rfl
  | next request output rest ih =>
    obtain ⟨before', -, hrest⟩ := exists_split_next hsplit
    exact ih hrest

end Abandoned

namespace Finished

variable {n : Nat} {signs before after : List Sign}

theorem clearing (h : Finished n signs) : signs.filter Sign.isClearing = [] := by
  induction h with
  | done => rfl
  | failed request cause elapsedMs early aborted => cases early <;> cases aborted <;> rfl
  | last request output elapsedMs early => cases early <;> rfl
  | next request output rest ih => exact ih

/-- Every abort comes when the run is settled. -/
theorem settled (h : Finished n signs) (hsplit : signs = before ++ .aborted :: after) :
    Settled n before after := by
  induction h generalizing before with
  | done => simp at hsplit
  | failed request cause elapsedMs early aborted =>
    exact .inl ⟨cause, result_mem_of_split hsplit⟩
  | last request output elapsedMs early =>
    exact .inr (List.countP_pos_iff.mpr ⟨_, result_mem_of_split hsplit, rfl⟩)
  | next request output rest ih =>
    obtain ⟨before', rfl, hrest⟩ := exists_split_next hsplit
    exact decided_next.mpr (ih hrest)

end Finished

/-! ## A run from a moment on -/

namespace Session

variable {ω : Type}

theorem id_abort (s : Session) : s.abort.id = s.id := congrArg Prod.fst s.origin_abort

theorem abandon_watched {e : Engine ω} {early : Request → Bool} (s : Session) (w : ω)
    (signs : List Sign) :
    abandon (e.watched early) s (w, signs) =
      (abandon e s w).watching (signs ++ [.abandoned s.id]) := rfl

namespace Moment

variable {e : Engine ω} {early : Request → Bool} {m : Moment ω} {step : CompiledStep}
  {rest : List CompiledStep}

/-- An abort that comes while the last step ends is forgotten with the switch. -/
theorem disarm_complete (output : Artifact) (elapsedMs : Nat) (aborted : Bool) (w : ω) :
    (m.complete step output elapsedMs aborted w).conclude.disarm =
      (m.complete step output elapsedMs false w).conclude.disarm := by
  unfold Moment.complete
  rw [abortIf_eq m.session aborted]
  rfl

theorem disarm_stop (cause : Error) (aborted : Bool) (w : ω) :
    (m.stop step cause aborted w).disarm = (m.stop step cause false w).disarm := by
  unfold Moment.stop
  rw [abortIf_eq m.session aborted]
  rfl

theorem id_complete (output : Artifact) (elapsedMs : Nat) (aborted : Bool) (w : ω) :
    (m.complete step output elapsedMs aborted w).session.id = m.session.id :=
  congrArg Prod.fst (m.session.origin_abortIf aborted)

theorem conclude_watching {signs : List Sign} :
    (m.watching signs).conclude = m.conclude.watching signs := by
  have hinputs : (m.watching signs).inputs = m.inputs := rfl
  unfold Moment.conclude
  rw [hinputs]
  cases m.inputs.getLast? <;> rfl

/-- How a run goes on that nobody has aborted yet, with the signs of it: it is
abandoned, or it ends by itself, as it would without aborts. -/
inductive Ends (e : Engine ω) (m : Moment ω) (steps : List CompiledStep) (signs : List Sign) :
    Prop where
  | abandoned (signs : Abandoned m.session.id steps.length signs)
      (run : ∃ s w, m.run e steps = abandon e s w)
  | finished (signs : Finished steps.length signs)
      (same : (m.run e steps).disarm = (m.run e.quiet steps).disarm)

/-- How a run continues of which some signs were written down: it is the same
run, and it ends with the signs that are written down behind them. -/
def Continues (e : Engine ω) (early : Request → Bool) (m : Moment ω) (steps : List CompiledStep)
    (signs : List Sign) : Prop :=
  ∃ more, (m.watching signs).run (e.watched early) steps =
    (m.run e steps).watching (signs ++ more) ∧ m.Ends e steps more

/-- A run that was aborted and has steps left is abandoned before the next
request. -/
theorem run_watched_of_pulled (early : Request → Bool) (rest : List CompiledStep)
    (signs : List Sign) (h : (m.begin e step).session.switch = .pulled) :
    (m.watching signs).run (e.watched early) (step :: rest) =
        (m.run e (step :: rest)).watching (signs ++
          (Sign.abortIf (m.abortedBefore e step) ++ [.abandoned m.session.id])) ∧
      ∃ s w, m.run e (step :: rest) = abandon e s w := by
  rw [run_of_over (turn_of_pulled h), run_of_over (turn_watched_of_pulled early signs h)]
  exact ⟨rfl, _, _, rfl⟩

/-- A step that succeeds leaves the end of the run to the others. -/
theorem Ends.next {next : Moment ω} {signs : List Sign} (request : Request) (output : Artifact)
    (hturn : m.turn e step = .on next) (hquiet : m.turn e.quiet step = .on next)
    (hid : next.session.id = m.session.id) (h : next.Ends e rest signs) :
    m.Ends e (step :: rest) (.called request :: .observed (.ok output) :: signs) := by
  have hrun : m.run e (step :: rest) = next.run e rest := run_of_on hturn
  cases h with
  | abandoned hsigns habandoned =>
    rw [hid] at hsigns
    rw [← hrun] at habandoned
    exact .abandoned (.next request output hsigns) habandoned
  | finished hsigns hsame =>
    rw [← hrun, ← run_of_on hquiet] at hsame
    exact .finished (.next request output hsigns) hsame

/-- A run that is aborted before a request. -/
theorem continues_of_aborted (early : Request → Bool) (rest : List CompiledStep)
    (signs : List Sign) (harmed : m.session.switch = .armed)
    (hbefore : m.abortedBefore e step = true) :
    m.Continues e early (step :: rest) signs := by
  have hpulled : (m.begin e step).session.switch = .pulled := by
    rw [switch_begin harmed, hbefore]
    rfl
  obtain ⟨hrun, habandoned⟩ := run_watched_of_pulled early rest signs hpulled
  rw [hbefore] at hrun
  exact ⟨_, hrun, .abandoned .before habandoned⟩

section Call

variable {reply : Reply} {output : Artifact} {cause : Error} {elapsedMs : Nat} {aborted : Bool}
  {w : ω}

/-- A run that is aborted while a request is pending. -/
theorem continues_of_interrupted (early : Request → Bool) (rest : List CompiledStep)
    (signs : List Sign) (harmed : m.session.switch = .armed)
    (hbefore : m.abortedBefore e step = false)
    (hcall : e.call (m.nextRequest step) (m.begin e step).world = (.interrupted, w)) :
    m.Continues e early (step :: rest) signs := by
  obtain ⟨hturn, hwatched, -⟩ := turns_of_call early signs harmed hbefore hcall
  have hid : ((m.begin e step).watching signs).session.abort.id = m.session.id :=
    (id_abort _).trans id_begin
  unfold Continues
  rw [run_of_over hwatched, abandon_watched, List.append_assoc, hid]
  refine ⟨_, ?_, .abandoned (.pending (m.nextRequest step)) ⟨_, _, run_of_over hturn⟩⟩
  rw [run_of_over hturn]
  rfl

/-- A run whose step fails. -/
theorem continues_of_failure (early : Request → Bool) (rest : List CompiledStep)
    (signs : List Sign) (harmed : m.session.switch = .armed)
    (hbefore : m.abortedBefore e step = false)
    (hcall : e.call (m.nextRequest step) (m.begin e step).world =
      (.finished (.error cause) elapsedMs aborted, w)) :
    m.Continues e early (step :: rest) signs := by
  obtain ⟨hturn, hwatched, hquiet⟩ := turns_of_call early signs harmed hbefore hcall
  refine ⟨_, ?_, .finished (.failed (m.nextRequest step) cause elapsedMs
    (early (m.nextRequest step)) aborted) ?_⟩
  · rw [run_of_over hturn, run_of_over hwatched]
    rfl
  · rw [run_of_over hturn, run_of_over hquiet]
    exact disarm_stop cause aborted w

/-- The switch after a step that succeeded. -/
theorem switch_complete_begin (harmed : m.session.switch = .armed)
    (hbefore : m.abortedBefore e step = false) :
    ((m.begin e step).complete step output elapsedMs aborted w).session.switch =
      if aborted then .pulled else .armed := by
  refine switch_abortIf ?_ aborted
  rw [switch_begin harmed, hbefore]
  rfl

theorem id_complete_begin :
    ((m.begin e step).complete step output elapsedMs aborted w).session.id = m.session.id :=
  (id_complete output elapsedMs aborted w).trans id_begin

/-- A run whose step succeeds continues as it does from there. -/
theorem continues_of_success (early : Request → Bool) (rest : List CompiledStep)
    (signs : List Sign) (harmed : m.session.switch = .armed)
    (hbefore : m.abortedBefore e step = false)
    (hcall : e.call (m.nextRequest step) (m.begin e step).world =
      (.finished (.ok output) elapsedMs false, w))
    (hnext : ((m.begin e step).complete step output elapsedMs false w).Continues e early rest
      (signs ++ [.called (m.nextRequest step), .observed (.ok output)])) :
    m.Continues e early (step :: rest) signs := by
  obtain ⟨hturn, hwatched, hquiet⟩ := turns_of_call early signs harmed hbefore hcall
  obtain ⟨more, hrun, hends⟩ := hnext
  refine ⟨_, ?_, hends.next (m.nextRequest step) output hturn hquiet id_complete_begin⟩
  rw [List.append_assoc] at hrun
  rw [run_of_on hwatched, run_of_on hturn]
  exact hrun

/-- A run that is aborted while a request ends with success. The abort takes
effect before the next request, if there is one. -/
theorem continues_of_late (early : Request → Bool) (rest : List CompiledStep)
    (signs : List Sign) (harmed : m.session.switch = .armed)
    (hbefore : m.abortedBefore e step = false)
    (hcall : e.call (m.nextRequest step) (m.begin e step).world =
      (.finished (.ok output) elapsedMs true, w)) :
    m.Continues e early (step :: rest) signs := by
  obtain ⟨hturn, hwatched, hquiet⟩ := turns_of_call early signs harmed hbefore hcall
  have hon : m.run e (step :: rest) = _ := run_of_on hturn
  -- the switch is pulled now, and only a further step looks at it
  unfold Continues
  rw [run_of_on hwatched]
  cases rest with
  | nil =>
    refine ⟨_, ?_, .finished (.last (m.nextRequest step) output elapsedMs
      (early (m.nextRequest step))) ?_⟩
    · rw [hon]
      exact conclude_watching (m := (m.begin e step).complete step output elapsedMs true w)
    · rw [hon, run_of_on hquiet]
      exact disarm_complete output elapsedMs true w
  | cons step' rest =>
    have hswitch : ((m.begin e step).complete step output elapsedMs true w).session.switch =
        .pulled := switch_complete_begin harmed hbefore
    obtain ⟨hrun, habandoned⟩ := run_watched_of_pulled early rest
      (signs ++ .called (m.nextRequest step) ::
        (Reply.finished (.ok output) elapsedMs true).signs (early (m.nextRequest step)))
      (switch_begin_of_pulled step' hswitch)
    rw [id_complete_begin, List.append_assoc] at hrun
    rw [← hon] at hrun habandoned
    exact ⟨_, hrun, .abandoned (.between _ output elapsedMs _ _) habandoned⟩

end Call

/-- **How a run goes on that nobody has aborted yet.** The induction is over
the steps that are left, for all signs so far; only a step that succeeds
without an abort leaves anything to it. -/
theorem continues (early : Request → Bool) (harmed : m.session.switch = .armed)
    (steps : List CompiledStep) (signs : List Sign) :
    m.Continues e early steps signs := by
  induction steps generalizing m signs with
  | nil =>
    refine ⟨[], ?_, .finished .done rfl⟩
    rw [List.append_nil]
    exact conclude_watching
  | cons step rest ih =>
    -- an abort before the request, and then the reply, say how the step ends
    cases hbefore : m.abortedBefore e step with
    | true => exact continues_of_aborted early rest signs harmed hbefore
    | false =>
      rcases hcall : e.call (m.nextRequest step) (m.begin e step).world with ⟨reply, w⟩
      rcases reply with ⟨cause | output, elapsedMs, aborted⟩ | _
      · exact continues_of_failure early rest signs harmed hbefore hcall
      · cases aborted with
        | true => exact continues_of_late early rest signs harmed hbefore hcall
        | false =>
          have hswitch : ((m.begin e step).complete step output elapsedMs false w).session.switch =
              .armed := switch_complete_begin harmed hbefore
          exact continues_of_success early rest signs harmed hbefore hcall (ih hswitch _)
      · exact continues_of_interrupted early rest signs harmed hbefore hcall

end Moment

end Session

end MediaPipeline
