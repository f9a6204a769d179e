import MediaPipeline.Proofs.Plan.Seam
/-!
# Plan/Misfit — the first neighbours that do not fit

Planning checks declared pairs of steps while it expands them, at every level
of nesting and with the indices of the level. Where everything that a
workflow refers to is sound, the only thing that can go wrong is that two
neighbours of the flattened sequence do not fit, and the first two that do
not are the ones that are reported, at their seam (`plan_of_misfit`). What
comes before them fits and expands; the induction is on the seam
(`Parts.expand_eq_error`, `PartsAlong.fails`).
-/


namespace MediaPipeline

/-- The failure at a seam: what the feature before it produces is refused
behind it. -/
def Seam.misfit (seam : Seam) (produced : MediaType) (why : Refusal) : Error :=
  .incompatible seam.workflow seam.index (seam.index + 1)
    (Catalogs.mismatchText seam.producer seam.consumer produced why)

namespace Catalogs

variable {c : Catalogs} {way way' : List String} {w v : Workflow} {path : List Nat}
variable {workflow : String} {i : Nat} {steps : List Step} {seam : Seam}
variable {leaves before after here later : List Entry} {a b : Entry} {why : Refusal}

/-! ## One pair, one step -/

/-- A check of two steps fails where the neighbours that they put side by side
do not fit. -/
theorem checkPair_eq_error {producer consumer : Step} (hp : c.Expands way [producer] here)
    (hc : c.Expands way' [consumer] later) (ha : here.getLast? = some a)
    (hb : later.head? = some b) (hwhy : b.intake.check a.intake.primary 1 = .error why) :
    c.checkPair workflow i producer consumer =
      .error (Seam.misfit ⟨workflow, i, producer, consumer⟩ a.intake.primary why) := by
  obtain ⟨x, hlast, hx⟩ := edge_of_expands (e := .last) hp (List.nil_subset _)
  obtain ⟨y, hfirst, hy⟩ := edge_of_expands (e := .first) hc (List.nil_subset _)
  have hxa : x = a := Option.some.inj (hx.symm.trans ha)
  have hyb : y = b := Option.some.inj (hy.symm.trans hb)
  subst hxa hyb
  rw [checkPair, outputType, inputIntake, hlast, hfirst]
  simp only [Except.map, bind, Except.bind, hwhy]
  rfl

/-- A single step expands where the features that it comes down to fit. -/
theorem expand_singleton {step : Step} (h : c.Expands way [step] here)
    (hchain : here.IsChain Entry.Feeds) : c.expand way workflow none 0 [step] = .ok here :=
  (expand_eq_ok [] (fun _ => rfl) (fun p hp => absurd hp (Option.not_mem_none p))).mpr
    ⟨h, hchain, Joins.nil⟩

/-! ## The steps of a workflow -/

/-- **Steps do not expand past the first misfit.** The induction is on where
the seam is; up to it every check succeeds, since the features in front of it
fit. -/
theorem Parts.expand_eq_error (h : c.Parts workflow i steps before after seam)
    (hexp : c.Expands way steps leaves) (hchain : before.IsChain Entry.Feeds)
    (ha : before.getLast? = some a) (hb : after.head? = some b)
    (hwhy : b.intake.check a.intake.primary 1 = .error why) {prior : Option Step}
    (hprior : ∀ step ∈ steps.head?, c.checkBefore workflow prior i step = .ok ()) :
    c.expand way workflow prior i steps = .error (seam.misfit a.intake.primary why) := by
  induction h generalizing way leaves prior with
  | @between workflow i producer consumer rest before after hproducer hrest =>
    obtain ⟨here, later, hhere, hlater, -⟩ := hexp.cons_inv
    have hbefore := hproducer.unique hhere.flattens
    have hafter := hrest.unique hlater.flattens
    subst hbefore hafter
    obtain ⟨first, more, hfirst, -, hsplit⟩ := hlater.cons_inv
    have hb' : first.head? = some b := by
      rw [hsplit, List.head?_append_of_ne_nil _ (hfirst.ne_nil (List.cons_ne_nil _ _))] at hb
      exact hb
    have hcheck : c.checkBefore workflow (some producer) (i + 1) consumer =
        .error (Seam.misfit ⟨workflow, i, producer, consumer⟩ a.intake.primary why) :=
      checkPair_eq_error hhere hfirst ha hb' hwhy
    have hbehind : c.expand way workflow (some producer) (i + 1) (consumer :: rest) =
        .error (Seam.misfit ⟨workflow, i, producer, consumer⟩ a.intake.primary why) := by
      rw [expand_cons, hcheck]
      rfl
    rw [expand_cons, hprior producer rfl, expand_singleton hhere hchain, hbehind]
    rfl
  | @within workflow i name v rest before after later seam hget hparts hrest ih =>
    obtain ⟨here, -, hhere, -, -⟩ := hexp.cons_inv
    obtain ⟨u, hget', hway, hne, hsteps⟩ := hhere.of_workflow
    have hsame := Option.some.inj (hget.symm.trans hget')
    subst hsame
    have hb' : after.head? = some b := by
      rwa [List.head?_append_of_ne_nil _ (hparts.ne_nil hsteps).2] at hb
    have hbelow : c.expand (way ++ [v.name]) v.name none 0 v.steps =
        .error (seam.misfit a.intake.primary why) := ih hsteps hchain ha hb' fun _ _ => rfl
    rw [expand_cons, hprior _ rfl, expand_workflow hget, if_neg hway, if_neg hne, hbelow]
    rfl
  | @behind workflow i step rest here before after seam hstep hparts ih =>
    obtain ⟨here', later, hhere, hlater, -⟩ := hexp.cons_inv
    have hsame := hstep.unique hhere.flattens
    subst hsame
    obtain ⟨hbefore, -⟩ := hparts.ne_nil hlater
    obtain ⟨hchain, hchain', hjoin⟩ := List.isChain_append.mp hchain
    have ha' : before.getLast? = some a := by
      rwa [List.getLast?_append_of_ne_nil _ hbefore] at ha
    -- the step behind the first takes what the first comes down to
    have hnext : ∀ next ∈ rest.head?, c.checkBefore workflow (some step) (i + 1) next = .ok () := by
      intro next hnext
      obtain ⟨rest', rfl⟩ := List.head?_eq_some_iff.mp hnext
      obtain ⟨first, more, hfirst, -, hsplit⟩ := hlater.cons_inv
      have hwhole := hparts.flattens.unique hlater.flattens
      have hjoin' : Joins Entry.Feeds here (before ++ after) := (Joins.append_iff hbefore).mpr hjoin
      rw [hwhole, hsplit, Joins.append_iff (hfirst.ne_nil (List.cons_ne_nil _ _))] at hjoin'
      exact (checkPair_eq_ok hhere hfirst).mpr hjoin'
    have hbehind : c.expand way workflow (some step) (i + 1) rest =
        .error (seam.misfit a.intake.primary why) := ih hlater hchain' ha' hb hnext
    rw [expand_cons, hprior step rfl, expand_singleton hhere hchain, hbehind]
    rfl

/-! ## Along a path -/

theorem leaves_of_ne_nil (hne : w.steps ≠ []) :
    c.leaves w = c.expand [w.name] w.name none 0 w.steps :=
  if_neg hne

theorem leaves_eq_error (hne : w.steps ≠ []) (hexp : c.Expands [w.name] w.steps leaves)
    (h : c.Parts w.name 0 w.steps before after seam) (hchain : before.IsChain Entry.Feeds)
    (ha : before.getLast? = some a) (hb : after.head? = some b)
    (hwhy : b.intake.check a.intake.primary 1 = .error why) :
    c.leaves w = .error (seam.misfit a.intake.primary why) := by
  rw [leaves_of_ne_nil hne]
  exact h.expand_eq_error hexp hchain ha hb hwhy fun _ _ => rfl

theorem continuation_cons {n : Nat} (hchild : w.child[n]? = some v) :
    c.continuation w (n :: path) = (do
      c.checkContinuation w v
      let here ← c.leaves v
      let later ← c.continuation v path
      .ok (here ++ later)) := by
  rw [continuation, hchild]

/-- **Nor does planning go past it.** Either the workflow itself fails at the
seam, or it expands and what goes on behind it fails there. The induction is
on the path. -/
theorem PartsAlong.fails (h : c.PartsAlong w path before after seam)
    (halong : c.ExpandsAlong w path leaves) (hchain : before.IsChain Entry.Feeds)
    (ha : before.getLast? = some a) (hb : after.head? = some b)
    (hwhy : b.intake.check a.intake.primary 1 = .error why) :
    c.leaves w = .error (seam.misfit a.intake.primary why) ∨
      ∃ own, c.leaves w = .ok own ∧
        c.continuation w path = .error (seam.misfit a.intake.primary why) := by
  induction h generalizing leaves with
  | stop hparts =>
    cases halong with
    | stop hne hsteps => exact .inl (leaves_eq_error hne hsteps hparts hchain ha hb hwhy)
  | own hparts hchild hmore =>
    obtain ⟨u, own, more, hne, hsteps, -, -, -⟩ := halong.cons_inv
    rw [List.head?_append_of_ne_nil _ (hparts.ne_nil hsteps).2] at hb
    exact .inl (leaves_eq_error hne hsteps hparts hchain ha hb hwhy)
  | @continuation w v n path own more front rest producer consumer hown hchild hmore hlast
      hfirst =>
    obtain ⟨u, own', more', hne, hsteps, hchild', halong', -⟩ := halong.cons_inv
    have hsame := Option.some.inj (hchild.symm.trans hchild')
    subst hsame
    have hown' := hown.unique hsteps.flattens
    have hmore' := hmore.unique halong'.flattensAlong
    subst hown' hmore'
    -- the ends of the two workflows are the declared steps at the seam
    have hproducer : w.steps.getLast? = some producer := by rw [hlast, List.getLast?_concat]
    have hconsumer : v.steps.head? = some consumer := by rw [hfirst]; rfl
    have hindex : w.steps.length - 1 = front.length := by rw [hlast]; simp
    obtain ⟨last, hlast', hlastEnd⟩ := hsteps.at_end (e := .last) hproducer
    obtain ⟨begun, _, hne', hbegun, hmore'⟩ := halong'.begins
    obtain ⟨first, hfirst', hfirstEnd⟩ := hbegun.at_end (e := .first) hconsumer
    have ha' : last.getLast? = some a := hlastEnd.symm.trans ha
    have hb' : first.head? = some b := by
      rw [hmore', List.head?_append_of_ne_nil _ (hbegun.ne_nil hne')] at hb
      exact hfirstEnd.symm.trans hb
    have hcheck : c.checkContinuation w v =
        .error (Seam.misfit ⟨w.name, front.length, producer, consumer⟩ a.intake.primary why) := by
      rw [checkContinuation, hproducer, hconsumer, hindex]
      exact checkPair_eq_error hlast' hfirst' ha' hb' hwhy
    refine .inr ⟨own, leaves_eq_ok.mpr ⟨hne, hsteps, hchain⟩, ?_⟩
    rw [continuation_cons hchild, hcheck]
    rfl
  | @behind w v n path own before after seam hown hchild hparts ih =>
    obtain ⟨u, own', more, hne, hsteps, hchild', halong', -⟩ := halong.cons_inv
    have hsame := Option.some.inj (hchild.symm.trans hchild')
    subst hsame
    have hown' := hown.unique hsteps.flattens
    subst hown'
    obtain ⟨hchain, hchain', hjoin⟩ := List.isChain_append.mp hchain
    have hbefore := hparts.before_ne_nil halong'
    have ha' : before.getLast? = some a := by
      rwa [List.getLast?_append_of_ne_nil _ hbefore] at ha
    have hleaves : c.leaves w = .ok own := leaves_eq_ok.mpr ⟨hne, hsteps, hchain⟩
    -- the child takes what its parent comes down to, since the misfit is behind it
    obtain ⟨begun, rest, hne', hbegun, hmore⟩ := halong'.begins
    have hwhole := hparts.flattensAlong.unique halong'.flattensAlong
    have hjoin' : Joins Entry.Feeds own (before ++ after) := (Joins.append_iff hbefore).mpr hjoin
    rw [hwhole, hmore, Joins.append_iff (hbegun.ne_nil hne')] at hjoin'
    have hcheck : c.checkContinuation w v = .ok () :=
      (checkContinuation_eq_ok hsteps hne hbegun hne').mpr hjoin'
    refine .inr ⟨own, hleaves, ?_⟩
    rw [continuation_cons hchild, hcheck]
    rcases ih halong' hchain' ha' hb with herror | ⟨more', hmore', herror⟩
    · rw [herror]
      rfl
    · rw [hmore', herror]
      rfl

/-- **What is reported of neighbours that do not fit.** The path leads
somewhere, and nothing that references lead to from what it selects is empty,
unknown or met twice. Then the first two neighbours of the flattened sequence
that do not fit have a seam, and planning fails there: with the workflow that
declares the seam, the index of the step in front of it, and, as the step the
failure is about, the one behind. -/
theorem plan_of_misfit (hpath : (w.descendant? path).isSome)
    (hsound : ∀ v, w.Selects path v → c.Sound v) (hflat : c.FlattensAlong w path leaves)
    (hmisfit : ¬ leaves.IsChain Entry.Feeds) (base : Nat) :
    ∃ front a b rest why, leaves = front ++ a :: b :: rest ∧
      (front ++ [a]).IsChain Entry.Feeds ∧ b.intake.check a.intake.primary 1 = .error why ∧
      (∃ seam, c.PartsAlong w path (front ++ [a]) (b :: rest) seam) ∧
      ∀ seam, c.PartsAlong w path (front ++ [a]) (b :: rest) seam →
        c.plan w path base =
            .error (.incompatible seam.workflow seam.index (seam.index + 1)
              (mismatchText seam.producer seam.consumer a.intake.primary why)) ∧
          (seam.misfit a.intake.primary why).stepIndex? = some (seam.index + 1) := by
  have halong : c.ExpandsAlong w path leaves := expandsAlong_iff.mpr ⟨hpath, hsound, hflat⟩
  obtain ⟨front, a, b, rest, hleaves, hchain, hbreak⟩ := exists_break hmisfit
  have hsplit : leaves = (front ++ [a]) ++ (b :: rest) := by rw [hleaves, List.append_cons]
  obtain ⟨why, hwhy⟩ : ∃ why, b.intake.check a.intake.primary 1 = .error why := by
    cases hcheck : b.intake.check a.intake.primary 1 with
    | error why => exact ⟨why, rfl⟩
    | ok _ => exact absurd hcheck hbreak
  have hseam : ∃ seam, c.PartsAlong w path (front ++ [a]) (b :: rest) seam :=
    halong.exists_partsAlong hsplit (by simp) (List.cons_ne_nil _ _)
  refine ⟨front, a, b, rest, why, hleaves, hchain, hwhy, hseam, fun seam hparts => ⟨?_, rfl⟩⟩
  have hlast : (front ++ [a]).getLast? = some a := List.getLast?_concat
  show c.plan w path base = .error (seam.misfit a.intake.primary why)
  rw [plan]
  rcases hparts.fails halong hchain hlast rfl hwhy with herror | ⟨own, hown, herror⟩
  · rw [herror]
    rfl
  · rw [hown, herror]
    rfl

/-- A feature that takes sound and nothing else. -/
def hush : Entry := { Entry.removeAudio with key := "HUSH", name := "Hush", intake := .single .audio }

/-- Two features that do not fit, as a workflow to refer to. -/
def strip : Workflow where
  name := "Strip"
  steps := [.feature "GRAYSCALE", .feature "HUSH"]

/-- A workflow that refers to them, and a child that does not fit either. -/
def mixtape : Workflow where
  name := "Mixtape"
  steps := [.workflow "Strip", .feature "GRAYSCALE"]
  child := [{ name := "Hushed", steps := [.feature "HUSH"] }]

/-- Catalogs for both. -/
def mixtapes : Catalogs := ⟨⟨[.grayscale, hush]⟩, ⟨[strip]⟩⟩

theorem plan_of_misfit_mixtape :
    (mixtape.descendant? [0]).isSome ∧ (∀ v, mixtape.Selects [0] v → mixtapes.Sound v) ∧
      mixtapes.FlattensAlong mixtape [0] [.grayscale, hush, .grayscale, hush] ∧
      ¬ [Entry.grayscale, hush, .grayscale, hush].IsChain Entry.Feeds ∧
      ∃ workflow i reason, mixtapes.plan mixtape [0] 0 =
        .error (.incompatible workflow i (i + 1) reason) := by
  have hstrip : mixtapes.Expands ["Mixtape", "Strip"] strip.steps [.grayscale, hush] :=
    .feature rfl (.feature rfl .nil)
  have hmixtape : mixtapes.Expands ["Mixtape"] mixtape.steps
      ([.grayscale, hush] ++ [.grayscale]) :=
    .workflow rfl (by decide) (by decide) hstrip (.feature rfl .nil)
  have halong : mixtapes.ExpandsAlong mixtape [0]
      (([.grayscale, hush] ++ [.grayscale]) ++ [hush]) :=
    .go (by decide) hmixtape rfl (.stop (by decide) (.feature rfl .nil))
  obtain ⟨hpath, hsound, hflat⟩ := expandsAlong_iff.mp halong
  have hmisfit : ¬ [Entry.grayscale, hush, .grayscale, hush].IsChain Entry.Feeds := by
    intro hchain
    have hfeeds : hush.intake.check Entry.grayscale.intake.primary 1 = .ok () :=
      (List.isChain_cons_cons.mp hchain).1
    cases hfeeds
  obtain ⟨front, a, b, rest, why, -, -, -, ⟨seam, hseam⟩, hplan⟩ :=
    plan_of_misfit hpath hsound hflat hmisfit 0
  exact ⟨hpath, hsound, hflat, hmisfit, seam.workflow, seam.index, _, (hplan seam hseam).1⟩

end Catalogs

end MediaPipeline
