import MediaPipeline.Proofs.Plan.Success
/-!
# Plan/Seam — where two neighbours of a flattened sequence part

Two features that are neighbours in a flattened sequence part in one declared
list of steps: their own workflow's, where no step holds both of them, or
that of a workflow referred to, where one step does. Across a continuation
they part between the parent and its child. A `Seam` names the workflow and
the two declared steps; `Parts` and `PartsAlong` say where the seam of a cut
is, and mention no check. Every cut that leaves something on both sides has a
seam (`Expands.exists_parts`, `ExpandsAlong.exists_partsAlong`).
-/


namespace MediaPipeline

/-- Two declared steps, one behind the other, and the workflow that declares
the first of them, which has the given index. -/
structure Seam where
  workflow : String
  index : Nat
  producer : Step
  consumer : Step

namespace Catalogs

variable {c : Catalogs} {way : List String} {w v : Workflow} {path : List Nat} {workflow : String}
variable {i : Nat} {steps rest : List Step} {step : Step} {seam : Seam}
variable {leaves before after here later own more : List Entry}

/-- Steps of a workflow, the first of which has the index `i`, come down to
features that are cut in two, and the seam is where. -/
inductive Parts (c : Catalogs) :
    String → Nat → List Step → List Entry → List Entry → Seam → Prop
  | between {workflow : String} {i : Nat} {producer consumer : Step} {rest : List Step}
      {before after : List Entry} (hproducer : c.Flattens [producer] before)
      (hrest : c.Flattens (consumer :: rest) after) :
      Parts c workflow i (producer :: consumer :: rest) before after
        ⟨workflow, i, producer, consumer⟩
  | within {workflow : String} {i : Nat} {name : String} {v : Workflow} {rest : List Step}
      {before after later : List Entry} {seam : Seam} (hget : c.workflows.get? name = some v)
      (hparts : Parts c v.name 0 v.steps before after seam) (hrest : c.Flattens rest later) :
      Parts c workflow i (.workflow name :: rest) before (after ++ later) seam
  | behind {workflow : String} {i : Nat} {step : Step} {rest : List Step}
      {here before after : List Entry} {seam : Seam} (hstep : c.Flattens [step] here)
      (hparts : Parts c workflow (i + 1) rest before after seam) :
      Parts c workflow i (step :: rest) (here ++ before) after seam

/-- A workflow and the descendants on a path come down to features that are
cut in two, and the seam is where: in the steps of one of them, or between
the last step of one and the first step of the next. -/
inductive PartsAlong (c : Catalogs) :
    Workflow → List Nat → List Entry → List Entry → Seam → Prop
  | stop {w : Workflow} {before after : List Entry} {seam : Seam}
      (hparts : c.Parts w.name 0 w.steps before after seam) : PartsAlong c w [] before after seam
  | own {w v : Workflow} {n : Nat} {path : List Nat} {before after more : List Entry}
      {seam : Seam} (hparts : c.Parts w.name 0 w.steps before after seam)
      (hchild : w.child[n]? = some v) (hmore : c.FlattensAlong v path more) :
      PartsAlong c w (n :: path) before (after ++ more) seam
  | continuation {w v : Workflow} {n : Nat} {path : List Nat} {own more : List Entry}
      {front rest : List Step} {producer consumer : Step} (hown : c.Flattens w.steps own)
      (hchild : w.child[n]? = some v) (hmore : c.FlattensAlong v path more)
      (hlast : w.steps = front ++ [producer]) (hfirst : v.steps = consumer :: rest) :
      PartsAlong c w (n :: path) own more ⟨w.name, front.length, producer, consumer⟩
  | behind {w v : Workflow} {n : Nat} {path : List Nat} {own before after : List Entry}
      {seam : Seam} (hown : c.Flattens w.steps own) (hchild : w.child[n]? = some v)
      (hparts : PartsAlong c v path before after seam) :
      PartsAlong c w (n :: path) (own ++ before) after seam

/-! ## What is cut -/

theorem Flattens.cons (h : c.Flattens [step] here) (hrest : c.Flattens rest later) :
    c.Flattens (step :: rest) (here ++ later) := by
  cases h with
  | feature hget h => cases h; exact .feature hget hrest
  | workflow hget hsteps h =>
    cases h
    rw [List.append_nil]
    exact .workflow hget hsteps hrest

/-- The two sides of a cut are the flattened steps. -/
theorem Parts.flattens (h : c.Parts workflow i steps before after seam) :
    c.Flattens steps (before ++ after) := by
  induction h with
  | between hproducer hrest => exact hproducer.cons hrest
  | within hget _ hrest ih =>
    rw [← List.append_assoc]
    exact .workflow hget ih hrest
  | behind hstep _ ih =>
    rw [List.append_assoc]
    exact hstep.cons ih

theorem PartsAlong.flattensAlong (h : c.PartsAlong w path before after seam) :
    c.FlattensAlong w path (before ++ after) := by
  induction h with
  | stop hparts => exact .stop hparts.flattens
  | own hparts hchild hmore =>
    rw [← List.append_assoc]
    exact .go hparts.flattens hchild hmore
  | continuation hown hchild hmore _ _ => exact .go hown hchild hmore
  | behind hown hchild _ ih =>
    rw [List.append_assoc]
    exact .go hown hchild ih

/-- Where no workflow below is empty, a seam has something on both sides. -/
theorem Parts.ne_nil (h : c.Parts workflow i steps before after seam)
    (hexp : c.Expands way steps leaves) : before ≠ [] ∧ after ≠ [] := by
  induction h generalizing way leaves with
  | between hproducer hrest =>
    obtain ⟨here, later, hhere, hlater, -⟩ := hexp.cons_inv
    rw [hproducer.unique hhere.flattens, hrest.unique hlater.flattens]
    exact ⟨hhere.ne_nil (List.cons_ne_nil _ _), hlater.ne_nil (List.cons_ne_nil _ _)⟩
  | within hget _ _ ih =>
    obtain ⟨here, -, hhere, -, -⟩ := hexp.cons_inv
    obtain ⟨u, hget', -, -, hsteps⟩ := hhere.of_workflow
    have hsame := Option.some.inj (hget.symm.trans hget')
    subst hsame
    obtain ⟨hbefore, hafter⟩ := ih hsteps
    exact ⟨hbefore, List.append_ne_nil_of_left_ne_nil hafter _⟩
  | behind _ _ ih =>
    obtain ⟨-, later, -, hlater, -⟩ := hexp.cons_inv
    obtain ⟨hbefore, hafter⟩ := ih hlater
    exact ⟨List.append_ne_nil_of_right_ne_nil _ hbefore, hafter⟩

/-! ## Every cut has a seam -/

/-- A cut behind the first step has its seam behind that step, or further
back. -/
theorem exists_parts_behind (hstep : c.Flattens [step] here) (hrest : c.Expands way rest later)
    (heq : later = before ++ after) (hafter : after ≠ [])
    (hbelow : before ≠ [] → ∃ seam, c.Parts workflow (i + 1) rest before after seam) :
    ∃ seam, c.Parts workflow i (step :: rest) (here ++ before) after seam := by
  by_cases hbefore : before = []
  · subst hbefore
    rw [List.nil_append] at heq
    subst heq
    rw [List.append_nil]
    cases rest with
    | nil =>
      -- without a step behind there is nothing behind the cut
      cases hrest
      exact absurd rfl hafter
    | cons consumer rest => exact ⟨_, .between hstep hrest.flattens⟩
  · obtain ⟨seam, hseam⟩ := hbelow hbefore
    exact ⟨seam, .behind hstep hseam⟩

/-- **A cut of flattened steps has a seam.** The induction is on the
expansion; a cut inside of what a reference comes down to is a cut of the
steps that it stands for. -/
theorem Expands.exists_parts (h : c.Expands way steps leaves) (heq : leaves = before ++ after)
    (hbefore : before ≠ []) (hafter : after ≠ []) (workflow : String) (i : Nat) :
    ∃ seam, c.Parts workflow i steps before after seam := by
  induction h generalizing before after workflow i with
  | nil => exact absurd (List.append_eq_nil_iff.mp heq.symm).1 hbefore
  | feature hget hrest ih =>
    rcases List.cons_eq_append_iff.mp heq with ⟨hnil, -⟩ | ⟨before', rfl, hlater⟩
    · exact absurd hnil hbefore
    · have hstep := Flattens.feature hget Flattens.nil
      exact exists_parts_behind hstep hrest hlater hafter
        fun hbefore' => ih hlater hbefore' hafter workflow (i + 1)
  | @workflow way name v rest here later hget hway hne hsteps hrest ihsteps ih =>
    have hstep : c.Flattens [.workflow name] here := by
      have hone := Flattens.workflow hget hsteps.flattens Flattens.nil
      rwa [List.append_nil] at hone
    rcases List.append_eq_append_iff.mp heq with ⟨before', rfl, hlater⟩ | ⟨after', hhere, rfl⟩
    · exact exists_parts_behind hstep hrest hlater hafter
        fun hbefore' => ih hlater hbefore' hafter workflow (i + 1)
    · by_cases hafter' : after' = []
      · -- the cut is just behind the reference
        subst hafter'
        rw [List.append_nil] at hhere
        subst hhere
        have hbehind : ∃ seam, c.Parts workflow i (.workflow name :: rest) (here ++ []) later seam :=
          exists_parts_behind hstep hrest rfl hafter fun hnil => absurd rfl hnil
        rwa [List.append_nil] at hbehind
      · obtain ⟨seam, hseam⟩ := ihsteps hhere hbefore hafter' v.name 0
        exact ⟨seam, .within hget hseam hrest.flattens⟩

theorem ExpandsAlong.cons_inv {n : Nat} (h : c.ExpandsAlong w (n :: path) leaves) :
    ∃ v own more, w.steps ≠ [] ∧ c.Expands [w.name] w.steps own ∧ w.child[n]? = some v ∧
      c.ExpandsAlong v path more ∧ leaves = own ++ more := by
  cases h with
  | go hne hsteps hchild hmore => exact ⟨_, _, _, hne, hsteps, hchild, hmore, rfl⟩

/-- The features along a path begin with those of the workflow itself. -/
theorem ExpandsAlong.begins (h : c.ExpandsAlong w path leaves) :
    ∃ own more, w.steps ≠ [] ∧ c.Expands [w.name] w.steps own ∧ leaves = own ++ more := by
  cases h with
  | stop hne hsteps => exact ⟨leaves, [], hne, hsteps, (List.append_nil _).symm⟩
  | go hne hsteps _ _ => exact ⟨_, _, hne, hsteps, rfl⟩

theorem ExpandsAlong.flattensAlong (h : c.ExpandsAlong w path leaves) :
    c.FlattensAlong w path leaves :=
  (expandsAlong_iff.mp h).2.2

/-- The cut between a workflow and its child has the last step of the one and
the first step of the other for its seam. -/
theorem exists_continuation {n : Nat} (hne : w.steps ≠ []) (hown : c.Flattens w.steps own)
    (hchild : w.child[n]? = some v) (hmore : c.ExpandsAlong v path more) :
    ∃ seam, c.PartsAlong w (n :: path) own more seam := by
  have hlast := (List.dropLast_append_getLast hne).symm
  obtain ⟨-, -, hne', -, -⟩ := hmore.begins
  obtain ⟨consumer, rest, hfirst⟩ := List.exists_cons_of_ne_nil hne'
  exact ⟨_, .continuation hown hchild hmore.flattensAlong hlast hfirst⟩

/-- **And so has a cut of the features along a path.** -/
theorem ExpandsAlong.exists_partsAlong (h : c.ExpandsAlong w path leaves)
    (heq : leaves = before ++ after) (hbefore : before ≠ []) (hafter : after ≠ []) :
    ∃ seam, c.PartsAlong w path before after seam := by
  induction h generalizing before after with
  | @stop w leaves hne hsteps =>
    obtain ⟨seam, hseam⟩ := hsteps.exists_parts heq hbefore hafter w.name 0
    exact ⟨seam, .stop hseam⟩
  | @go w v n path own more hne hsteps hchild hmore ih =>
    rcases List.append_eq_append_iff.mp heq with ⟨before', rfl, hbehind⟩ | ⟨after', hown, rfl⟩
    · by_cases hbefore' : before' = []
      · subst hbefore'
        rw [List.nil_append] at hbehind
        subst hbehind
        rw [List.append_nil]
        exact exists_continuation hne hsteps.flattens hchild hmore
      · obtain ⟨seam, hseam⟩ := ih hbehind hbefore' hafter
        exact ⟨seam, .behind hsteps.flattens hchild hseam⟩
    · by_cases hafter' : after' = []
      · subst hafter'
        rw [List.append_nil] at hown
        subst hown
        exact exists_continuation hne hsteps.flattens hchild hmore
      · obtain ⟨seam, hseam⟩ := hsteps.exists_parts hown hbefore hafter' w.name 0
        exact ⟨seam, .own hseam hchild hmore.flattensAlong⟩

/-- A seam along a path has something before it. -/
theorem PartsAlong.before_ne_nil (h : c.PartsAlong w path before after seam)
    (halong : c.ExpandsAlong w path leaves) : before ≠ [] := by
  induction h generalizing leaves with
  | stop hparts =>
    obtain ⟨_, _, -, hsteps, -⟩ := halong.begins
    exact (hparts.ne_nil hsteps).1
  | own hparts _ _ =>
    obtain ⟨_, _, -, hsteps, -⟩ := halong.begins
    exact (hparts.ne_nil hsteps).1
  | continuation hown _ _ _ _ =>
    obtain ⟨_, _, hne, hsteps, -⟩ := halong.begins
    rw [hown.unique hsteps.flattens]
    exact hsteps.ne_nil hne
  | behind _ hchild _ ih =>
    obtain ⟨u, _, _, -, -, hchild', hmore, -⟩ := halong.cons_inv
    have hsame := Option.some.inj (hchild.symm.trans hchild')
    subst hsame
    exact List.append_ne_nil_of_right_ne_nil _ (ih hmore)

end Catalogs

end MediaPipeline
