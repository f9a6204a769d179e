import MediaPipeline.Proofs.Plan.Expansion
/-!
# Plan/Success — when a workflow has a plan

A plan exists exactly where the path leads somewhere, everything that it
selects is sound, and in the flattened sequence each feature feeds the one
behind it (`plan_isOk_iff`). `ExpandsAlong` carries the two halves at once:
it is the flattening along the path of workflows that are all sound
(`expandsAlong_iff`), and it is what planning walks (`plan_eq_ok`).
-/


namespace MediaPipeline

open Traversal

namespace Catalogs

variable {c : Catalogs} {way way' : List String} {w v : Workflow} {path : List Nat}
variable {leaves here later : List Entry}

/-- A workflow and what it expands to, followed by the expansions of the
descendants on a path; each starts on a way of its own. -/
inductive ExpandsAlong (c : Catalogs) : Workflow → List Nat → List Entry → Prop
  | stop {w : Workflow} {leaves : List Entry} (hne : w.steps ≠ [])
      (hsteps : c.Expands [w.name] w.steps leaves) : ExpandsAlong c w [] leaves
  | go {w v : Workflow} {n : Nat} {path : List Nat} {own more : List Entry} (hne : w.steps ≠ [])
      (hsteps : c.Expands [w.name] w.steps own) (hchild : w.child[n]? = some v)
      (hmore : ExpandsAlong c v path more) : ExpandsAlong c w (n :: path) (own ++ more)

/-! ## One workflow -/

theorem leaves_eq_ok :
    c.leaves w = .ok leaves ↔
      w.steps ≠ [] ∧ c.Expands [w.name] w.steps leaves ∧ leaves.IsChain Entry.Feeds := by
  unfold Catalogs.leaves
  split
  · rename_i hnil
    simp [noSteps, hnil]
  · rename_i hne
    rw [expand_eq_ok [] (fun _ => rfl) (fun p hp => by cases hp)]
    simp [hne, Joins.nil]

/-- The last step of a parent and the first one of its child put side by side
what the two come down to. -/
theorem checkContinuation_eq_ok (hw : c.Expands way w.steps here) (hne : w.steps ≠ [])
    (hv : c.Expands way' v.steps later) (hne' : v.steps ≠ []) :
    c.checkContinuation w v = .ok () ↔ Joins Entry.Feeds here later := by
  have hlast : w.steps.getLast? = some (w.steps.getLast hne) := List.getLast?_eq_some_getLast hne
  have hfirst : v.steps.head? = some (v.steps.head hne') := List.head?_eq_some_head hne'
  obtain ⟨x, hx, hxlast⟩ := hw.at_end (e := .last) hlast
  obtain ⟨y, hy, hyfirst⟩ := hv.at_end (e := .first) hfirst
  simp only [End.of?] at hxlast hyfirst
  rw [checkContinuation, hlast, hfirst]
  simp only
  rw [checkPair_eq_ok hx hy]
  unfold Joins
  rw [hxlast, hyfirst]

/-! ## A path of children -/

theorem continuation_cons_eq_ok {n : Nat} {more : List Entry} :
    c.continuation w (n :: path) = .ok more ↔
      ∃ v here later, w.child[n]? = some v ∧ c.checkContinuation w v = .ok () ∧
        c.leaves v = .ok here ∧ c.continuation v path = .ok later ∧ more = here ++ later := by
  rw [continuation]
  cases hchild : w.child[n]? with
  | none => simp
  | some v =>
    simp only [bind_eq_ok]
    constructor
    · rintro ⟨_, hcheck, here, hhere, later, hlater, h⟩
      cases h
      exact ⟨v, here, later, rfl, hcheck, hhere, hlater, rfl⟩
    · rintro ⟨v', here, later, hv, hcheck, hhere, hlater, rfl⟩
      obtain rfl := Option.some.inj hv
      exact ⟨_, hcheck, here, hhere, later, hlater, rfl⟩

/-- **What planning walks.** The induction is on the path; each child joins
what its parent comes down to. -/
theorem leaves_continuation_eq_ok :
    (∃ own more, c.leaves w = .ok own ∧ c.continuation w path = .ok more ∧
        leaves = own ++ more) ↔
      c.ExpandsAlong w path leaves ∧ leaves.IsChain Entry.Feeds := by
  induction path generalizing w leaves with
  | nil =>
    simp only [leaves_eq_ok, continuation]
    constructor
    · rintro ⟨own, more, ⟨hne, hexp, hchain⟩, h, rfl⟩
      cases h
      rw [List.append_nil]
      exact ⟨.stop hne hexp, hchain⟩
    · rintro ⟨h, hchain⟩
      cases h with
      | stop hne hexp => exact ⟨leaves, [], ⟨hne, hexp, hchain⟩, rfl, (List.append_nil _).symm⟩
  | cons n path ih =>
    simp only [continuation_cons_eq_ok]
    constructor
    · rintro ⟨own, more, hown, ⟨v, here, later, hchild, hcheck, hhere, hlater, rfl⟩, rfl⟩
      obtain ⟨hne, hexp, hchain⟩ := leaves_eq_ok.mp hown
      obtain ⟨hne', hexp', -⟩ := leaves_eq_ok.mp hhere
      obtain ⟨halong, hchain'⟩ := ih.mp ⟨here, later, hhere, hlater, rfl⟩
      refine ⟨.go hne hexp hchild halong, List.isChain_append.mpr ⟨hchain, hchain', ?_⟩⟩
      exact (Joins.append_iff (hexp'.ne_nil hne')).mpr
        ((checkContinuation_eq_ok hexp hne hexp' hne').mp hcheck)
    · rintro ⟨h, hchain⟩
      cases h with
      | @go _ v _ _ own _ hne hexp hchild halong =>
        obtain ⟨hown, hrest, hjoin⟩ := List.isChain_append.mp hchain
        obtain ⟨here, later, hhere, hlater, rfl⟩ := ih.mpr ⟨halong, hrest⟩
        obtain ⟨hne', hexp', -⟩ := leaves_eq_ok.mp hhere
        refine ⟨own, here ++ later, leaves_eq_ok.mpr ⟨hne, hexp, hown⟩,
          ⟨v, here, later, hchild, ?_, hhere, hlater, rfl⟩, rfl⟩
        exact (checkContinuation_eq_ok hexp hne hexp' hne').mpr
          ((Joins.append_iff (hexp'.ne_nil hne')).mp hjoin)

/-- **What a plan is.** -/
theorem plan_eq_ok {base : Nat} {planned : List Planned} :
    c.plan w path base = .ok planned ↔
      ∃ leaves, c.ExpandsAlong w path leaves ∧ leaves.IsChain Entry.Feeds ∧
        planned = numbered base leaves := by
  rw [plan]
  simp only [bind_eq_ok]
  constructor
  · rintro ⟨own, hown, more, hmore, h⟩
    cases h
    obtain ⟨halong, hchain⟩ := leaves_continuation_eq_ok.mp ⟨own, more, hown, hmore, rfl⟩
    exact ⟨_, halong, hchain, rfl⟩
  · rintro ⟨leaves, halong, hchain, rfl⟩
    obtain ⟨own, more, hown, hmore, rfl⟩ := leaves_continuation_eq_ok.mpr ⟨halong, hchain⟩
    exact ⟨own, hown, more, hmore, rfl⟩

/-! ## What is in it -/

theorem map_index_numbered (base : Nat) (leaves : List Entry) :
    (numbered base leaves).map Planned.index = List.range' base leaves.length := by
  refine List.ext_getElem (by simp [numbered]) fun i h₁ h₂ => ?_
  simp [numbered]

theorem map_entry_numbered (base : Nat) (leaves : List Entry) :
    (numbered base leaves).map Planned.entry = leaves := by
  refine List.ext_getElem (by simp [numbered]) fun i h₁ h₂ => ?_
  simp [numbered]

theorem length_numbered (base : Nat) (leaves : List Entry) :
    (numbered base leaves).length = leaves.length := by
  simp [numbered]

variable {base : Nat} {planned : List Planned}

/-- The places of a plan follow each other. -/
theorem map_index_of_plan (h : c.plan w path base = .ok planned) :
    planned.map Planned.index = List.range' base planned.length := by
  obtain ⟨leaves, -, -, rfl⟩ := plan_eq_ok.mp h
  rw [map_index_numbered, length_numbered]

/-- In a plan each feature feeds the one behind it. -/
theorem isChain_of_plan (h : c.plan w path base = .ok planned) :
    planned.IsChain Planned.Feeds := by
  obtain ⟨leaves, -, hchain, rfl⟩ := plan_eq_ok.mp h
  rw [← map_entry_numbered base leaves] at hchain
  exact (List.isChain_map Planned.entry).mp hchain

/-- No plan is empty. -/
theorem ne_nil_of_plan (h : c.plan w path base = .ok planned) : planned ≠ [] := by
  obtain ⟨leaves, halong, -, rfl⟩ := plan_eq_ok.mp h
  have hne : leaves ≠ [] := by
    cases halong with
    | stop hne hsteps => exact hsteps.ne_nil hne
    | go hne hsteps _ _ => exact fun heq => hsteps.ne_nil hne (List.append_eq_nil_iff.mp heq).1
  intro hnil
  have hlen := length_numbered base leaves
  rw [hnil] at hlen
  exact hne (List.eq_nil_of_length_eq_zero hlen.symm)

/-! ## When there is one -/

/-- **An expansion along a path is the flattening along it of what is
sound.** -/
theorem expandsAlong_iff :
    c.ExpandsAlong w path leaves ↔
      (w.descendant? path).isSome ∧ (∀ v, w.Selects path v → c.Sound v) ∧
        c.FlattensAlong w path leaves := by
  induction path generalizing w leaves with
  | nil =>
    simp only [Workflow.selects_nil, forall_eq']
    constructor
    · intro h
      cases h with
      | stop hne h => exact ⟨rfl, sound_iff_expands.mpr ⟨hne, leaves, h⟩, .stop h.flattens⟩
    · rintro ⟨-, hsound, h⟩
      cases h with
      | stop h => exact .stop (hsound.steps_ne_nil w .refl) (hsound.expands h)
  | cons n path ih =>
    simp only [Workflow.selects_cons]
    constructor
    · intro h
      cases h with
      | @go _ u _ _ own _ hne h hchild hmore =>
        obtain ⟨hdesc, hsound, hflat⟩ := ih.mp hmore
        refine ⟨by rwa [Workflow.descendant?, hchild], ?_, .go h.flattens hchild hflat⟩
        rintro v (rfl | ⟨u', hu', hv⟩)
        · exact sound_iff_expands.mpr ⟨hne, own, h⟩
        · rw [hchild] at hu'
          obtain rfl := Option.some.inj hu'
          exact hsound v hv
    · rintro ⟨hdesc, hsound, h⟩
      cases h with
      | @go _ u _ _ own more h hchild hmore =>
        rw [Workflow.descendant?, hchild] at hdesc
        have hw := hsound w (.inl rfl)
        refine .go (hw.steps_ne_nil w .refl) (hw.expands h) hchild (ih.mpr ⟨hdesc, ?_, hmore⟩)
        exact fun v hv => hsound v (.inr ⟨u, hchild, hv⟩)

/-- **When a workflow has a plan.** The path leads to a descendant; nothing
that references lead to from the workflow or from a selected descendant is
empty, unknown or met twice on one chain; and in the flattened sequence each
feature takes, as a single input, what the one before it produces. -/
theorem plan_isOk_iff (c : Catalogs) (w : Workflow) (path : List Nat) (base : Nat) :
    (∃ planned, c.plan w path base = .ok planned) ↔
      (w.descendant? path).isSome ∧ (∀ v, w.Selects path v → c.Sound v) ∧
        ∃ leaves, c.FlattensAlong w path leaves ∧ leaves.IsChain Entry.Feeds := by
  simp only [plan_eq_ok, expandsAlong_iff]
  constructor
  · rintro ⟨planned, leaves, ⟨hdesc, hsound, hflat⟩, hchain, -⟩
    exact ⟨hdesc, hsound, leaves, hflat, hchain⟩
  · rintro ⟨hdesc, hsound, leaves, hflat, hchain⟩
    exact ⟨_, leaves, ⟨hdesc, hsound, hflat⟩, hchain, rfl⟩

end Catalogs

end MediaPipeline
