import MediaPipeline.Proofs.Plan.Success
/-!
# Plan/Ends — the ends of a plan

What a step takes and what it produces is found by a search that follows one
end of it, on a way that starts afresh; a plan expands every step, on the way
of the workflow that it is for. Both come to the same feature: an end of a plan
is what the search finds at that end of the steps (`edge_of_plan`), however
deep the references lie. So the types that a declared pair of steps is checked
by are those of the features that the plan puts side by side.
-/


namespace MediaPipeline

/-- An end of a list whose items are changed is that end, changed. -/
theorem End.of?_map {α β : Type} (e : End) (f : α → β) (l : List α) :
    e.of? (l.map f) = (e.of? l).map f := by
  cases e with
  | first => exact List.head?_map
  | last => exact List.getLast?_map

namespace Catalogs

variable {c : Catalogs} {w : Workflow} {step : Step} {base : Nat} {planned : List Planned}

/-- **The search finds the end of the plan.** The plan holds what the step at
that end comes down to, and the search follows that step on a way with fewer
names. -/
theorem edge_of_plan {e : End} (h : c.plan w [] base = .ok planned)
    (hstep : e.of? w.steps = some step) :
    ∃ q, e.of? planned = some q ∧ c.edge e [] step = .ok q.entry := by
  obtain ⟨leaves, halong, -, rfl⟩ := plan_eq_ok.mp h
  cases halong with
  | stop hne hsteps =>
    obtain ⟨here, hhere, hsame⟩ := hsteps.at_end hstep
    obtain ⟨a, hedge, ha⟩ := edge_of_expands hhere (List.nil_subset _)
    have hentry : (e.of? (numbered base leaves)).map Planned.entry = some a := by
      rw [← End.of?_map, map_entry_numbered, hsame, ha]
    obtain ⟨q, hq, rfl⟩ := Option.map_eq_some_iff.mp hentry
    exact ⟨q, hq, hedge⟩

/-- **The ends of a step are the ends of its plan.** Where the workflow with
that one step has a plan, the step produces the primary type of the last
feature in it, and takes what the first one takes. -/
theorem ends_of_plan (hsteps : w.steps = [step]) (h : c.plan w [] base = .ok planned) :
    (∃ q, planned.getLast? = some q ∧ c.outputType step = .ok q.entry.intake.primary) ∧
      ∃ q, planned.head? = some q ∧ c.inputIntake step = .ok q.entry.intake := by
  have hend (e : End) : e.of? w.steps = some step := by
    rw [hsteps]
    cases e <;> rfl
  constructor
  · obtain ⟨q, hlast, hedge⟩ := edge_of_plan h (hend .last)
    refine ⟨q, hlast, ?_⟩
    rw [outputType, hedge]
    rfl
  · obtain ⟨q, hfirst, hedge⟩ := edge_of_plan h (hend .first)
    refine ⟨q, hfirst, ?_⟩
    rw [inputIntake, hedge]
    rfl

/-- A workflow with one step, two references above the features: it takes sound
and produces video. -/
def voiceover : Workflow where
  name := "Voiceover"
  steps := [.workflow "Narrated"]

/-- Catalogs for it. -/
def voiceovers : Catalogs where
  features := ⟨[.volume, .customRun, .grayscale]⟩
  workflows := ⟨[{ name := "Narrated", steps := [.workflow "Spoken", .feature "GRAYSCALE"] },
    { name := "Spoken", steps := [.feature "VOLUME", .feature "CUSTOM_RUN"] }]⟩

theorem ends_of_plan_voiceover :
    ∃ planned, voiceover.steps = [.workflow "Narrated"] ∧
      voiceovers.plan voiceover [] 3 = .ok planned ∧
      voiceovers.outputType (.workflow "Narrated") = .ok .video ∧
      voiceovers.inputIntake (.workflow "Narrated") = .ok (.single .audio) := by
  have hplan : voiceovers.plan voiceover [] 3 =
      .ok [⟨3, .volume⟩, ⟨4, .customRun⟩, ⟨5, .grayscale⟩] := by cbv
  obtain ⟨⟨last, hlast, houtput⟩, first, hfirst, hinput⟩ := ends_of_plan rfl hplan
  obtain rfl : Planned.mk 5 .grayscale = last := Option.some.inj hlast
  obtain rfl : Planned.mk 3 .volume = first := Option.some.inj hfirst
  exact ⟨_, rfl, hplan, houtput, hinput⟩

end Catalogs

end MediaPipeline
