import Mathlib.Data.List.Permutation
import MediaPipeline.Proofs.Intake
import MediaPipeline.Proofs.Registry.Compilation
import MediaPipeline.Registry.Build

-- Mathlib.Data.List.Permutation holds the equation of `Prod.snd` by which `cbv`
-- evaluates; without it each module would derive that equation again.

/-!
# Registry/Handover — what a step is handed, and whether it takes it

The first step of a pipeline has its inputs checked as a whole set. Every
later step is handed one artifact, of the type that the step before it
produces, and compiling asks no more than whether it takes one input of that
type. It takes what it is handed exactly where it needs nothing else
(`checkAll_handed_iff`). An intake may list several types that it needs, so
compiling lets steps through that refuse what they are handed
(`not_checkAll_handed`).
-/


namespace MediaPipeline

namespace Registry

variable {r : Registry} {selections : List Selection} {configs : StepConfigs} {p : Pipeline}
variable {i : Nat} {before after : CompiledStep}

/-- The steps of a compiled pipeline feed each other, across selections too. -/
theorem feeds_of_compileAll (h : r.compileAll selections configs = .ok p) :
    p.steps.IsChain CompiledStep.Feeds := by
  obtain ⟨-, plans, hplans, hsteps, hjoins⟩ := compileAll_eq_ok.mp ⟨p, h, rfl⟩
  have hplanned : plans.flatten.IsChain Planned.Feeds := hplans.isChain_flatten.mpr hjoins
  exact hsteps.isChain_iff.mpr hplanned

/-- **A step behind the first takes what it is handed** exactly where it needs
inputs of no other type. -/
theorem checkAll_handed_iff (h : r.compileAll selections configs = .ok p)
    (hbefore : p.steps[i]? = some before) (hafter : p.steps[i + 1]? = some after) :
    after.intake.checkAll [before.outputType] = .ok () ↔
      after.intake.NeedsOnly before.outputType := by
  obtain ⟨hi, rfl⟩ := List.getElem?_eq_some_iff.mp hbefore
  obtain ⟨hi', rfl⟩ := List.getElem?_eq_some_iff.mp hafter
  have hfeeds : p.steps[i].Feeds p.steps[i + 1] :=
    List.isChain_iff_getElem.mp (feeds_of_compileAll h) i hi'
  -- this is all that compiling asked of the step
  have hone : p.steps[i + 1].intake.check p.steps[i].outputType 1 = .ok () := hfeeds
  rw [Intake.checkAll_singleton]
  exact and_iff_right hone

/-- A feature that takes a video and the sound to go with it. -/
def dubbing : Entry where
  key := "DUBBING"
  name := "Dubbing"
  intake := {
    requirements := [⟨.video, .one⟩, ⟨.audio, .one⟩]
    primary := .video
    bounded := by decide
    distinct := by decide
    listed := by decide }
  defaults := some .empty
  feature := Stream.grayscale.toFeature

/-- Catalogs with that feature and one that produces a video. -/
def dubbings : Catalogs := ⟨⟨[.grayscale, dubbing]⟩, ⟨[]⟩⟩

/-- Both features, one behind the other. -/
def dubbed : List Selection := [⟨"Features/Grayscale", []⟩, ⟨"Features/Dubbing", []⟩]

/-- They compile, and the second refuses what the first hands it. -/
theorem compileAll_dubbed :
    ∃ r p before after, build dubbings {} = .ok r ∧ r.compileAll dubbed {} = .ok p ∧
      p.steps[0]? = some before ∧ p.steps[1]? = some after ∧
      after.intake.checkAll [before.outputType] = .error (.wrongCount ⟨.audio, .one⟩ 0) :=
  ⟨_, _, _, _, by cbv, by cbv, by cbv, by cbv, by cbv⟩

theorem checkAll_handed_iff_dubbed :
    ∃ r p before after, build dubbings {} = .ok r ∧ r.compileAll dubbed {} = .ok p ∧
      p.steps[0]? = some before ∧ p.steps[1]? = some after ∧
      (after.intake.checkAll [before.outputType] = .ok () ↔
        after.intake.NeedsOnly before.outputType) := by
  obtain ⟨r, p, before, after, hbuild, hp, hbefore, hafter, -⟩ := compileAll_dubbed
  exact ⟨r, p, before, after, hbuild, hp, hbefore, hafter, checkAll_handed_iff hp hbefore hafter⟩

/-- **Compiling does not ensure that a step takes what it is handed,** even
where the tree was built and the intake of the step has no fault. -/
theorem not_checkAll_handed :
    ¬ ∀ (c : Catalogs) (settings : Settings.Catalog) (r : Registry)
        (selections : List Selection) (configs : StepConfigs) (p : Pipeline) (i : Nat)
        (before after : CompiledStep),
      build c settings = .ok r → r.compileAll selections configs = .ok p →
      p.steps[i]? = some before → p.steps[i + 1]? = some after →
      after.intake.checkAll [before.outputType] = .ok () := by
  intro hall
  obtain ⟨r, p, before, after, hbuild, hp, hbefore, hafter, hrefused⟩ := compileAll_dubbed
  have htaken := hall dubbings {} r dubbed {} p 0 before after hbuild hp hbefore hafter
  rw [hrefused] at htaken
  cases htaken

end Registry

end MediaPipeline
