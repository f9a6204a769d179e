import MediaPipeline.Proofs.Feature.Reading
/-!
# Feature/Blame — what a feature of this library fails by

A feature is compiled in two stages, and each of them fails in one way. The
parser blames the value at one of the paths of its schema (`reads_builtin`).
What is made of the settings looks at the settings together, and may find that
they do not go with each other: three features do (`Entry.relating`), and each
says so under the name of its own entry (`synthesize_builtin`). No failure is
of another kind, so the user can mend every one of them
(`isUserError_of_builtin`).
-/


namespace MediaPipeline

open Traversal

namespace Entry

/-- The features that need a relation between their settings. -/
def relating : List Entry := [aspectRatio, trim, customRun]

/-- What the feature of an entry fails by, where it reads the given paths: the
value at one of them, or the relation between its settings. -/
inductive Blames (e : Entry) (paths : List String) : Error → Prop
  | value {path : String} (hpath : path ∈ paths) (fault : ConfigurationFault) :
      Blames e paths (.configuration path fault)
  | relation (he : e ∈ relating) (violation : Violation) :
      Blames e paths (.invariant e.name violation)

variable {e : Entry} {paths : List String} {err : Error} {violation : Violation}

theorem Blames.isUserError (h : e.Blames paths err) : err.isUserError = true := by
  cases h <;> rfl

theorem Blames.mem_relating {name : String} (h : e.Blames paths (.invariant name violation)) :
    e ∈ relating := by
  cases h
  assumption

/-- A parser that keeps to the paths blames a value at one of them. -/
theorem Blames.of_blamesPath (h : err.BlamesPath paths) : e.Blames paths err := by
  cases err with
  | configuration path fault => exact .value h fault
  | _ => exact h.elim

end Entry

/-! ## Relations between settings -/

theorem Frame.synthesizeRatio_blames (s : RatioSettings) :
    FailsBy (Entry.aspectRatio.Blames aspectRatio.paths) (synthesizeRatio s) := by
  unfold synthesizeRatio
  dsimp only
  split
  · exact FailsBy.error (.relation (by simp [Entry.relating]) _)
  · exact FailsBy.ok _

theorem Timeline.synthesizeSpan_blames (s : Span) :
    FailsBy (Entry.trim.Blames trim.paths) (synthesizeSpan s) := by
  unfold synthesizeSpan
  split
  · exact FailsBy.error (.relation (by simp [Entry.relating]) _)
  · exact FailsBy.ok _

theorem Verbatim.synthesizeWords_blames (args : List String) :
    FailsBy (Entry.customRun.Blames customRun.paths) (synthesizeWords args) := by
  unfold synthesizeWords
  split
  · exact FailsBy.error (.relation (by simp [Entry.relating]) _)
  · exact FailsBy.ok _

/-- **What is made of the settings fails by the relation between them,** under
the name of the entry. The other features make a command of any settings. -/
theorem synthesize_builtin :
    List.Forall₂ (fun s e => ∀ settings, FailsBy (e.Blames s.paths) (s.synthesize settings))
      Schema.builtin FeatureCatalog.builtin.entries := by
  refine .cons Frame.synthesizeRatio_blames ?_
  refine .cons (fun _ => FailsBy.ok _) ?_
  refine .cons (fun _ => FailsBy.ok _) ?_
  refine .cons Timeline.synthesizeSpan_blames ?_
  refine .cons (fun _ => FailsBy.ok _) ?_
  refine .cons (fun _ => FailsBy.ok _) ?_
  refine .cons (fun _ => FailsBy.ok _) ?_
  refine .cons (fun _ => FailsBy.ok _) ?_
  refine .cons (fun _ => FailsBy.ok _) ?_
  exact .cons Verbatim.synthesizeWords_blames .nil

/-! ## Features -/

/-- Each feature fails by what its entry may blame. -/
theorem compile_builtin :
    List.Forall₂ (fun s e => ∀ c, FailsBy (e.Blames s.paths) (e.feature.compile c))
      Schema.builtin FeatureCatalog.builtin.entries := by
  have hparsers := (List.forall₂_and_left _ _).mpr ⟨reads_builtin, feature_builtin⟩
  refine hparsers.mp (fun s e ⟨hreads, hfeature⟩ hsynthesize c => ?_) synthesize_builtin
  rw [hfeature]
  have hparse : FailsBy (e.Blames s.paths) (s.parse c) :=
    (hreads.blames c).mono fun _ => Entry.Blames.of_blamesPath
  exact hparse.bind fun settings _ => hsynthesize settings

/-- **A feature of this library fails only by what it was given,** which the
user can mend. -/
theorem isUserError_of_builtin {e : Entry} (he : e ∈ FeatureCatalog.builtin.entries)
    (c : Configuration) : FailsBy (fun err => err.isUserError = true) (e.feature.compile c) := by
  obtain ⟨s, -, hcompile⟩ := exists_of_forall₂_of_mem compile_builtin he
  exact (hcompile c).mono fun _ => Entry.Blames.isUserError

/-! ## Settings that do not go with each other -/

namespace Entry

/-- A picture twice as wide as high, declared as a square. -/
def squared : Configuration := defaultsOf [("ASPECT_RATIO", .number 1.0),
  ("ASPECT_RATIO.WIDTH", .number 2.0), ("ASPECT_RATIO.HEIGHT", .number 1.0)]

/-- A part that ends before it starts. -/
def reversed : Configuration := defaultsOf [("TRIM.START", .number 2.0), ("TRIM.END", .number 1.0)]

/-- Arguments that would say what happens to an existing output. -/
def overwriting : Configuration := defaultsOf [("CUSTOM_RUN", .text "-y")]

/-- Each of the three features refuses some settings for the relation between
them. -/
theorem exists_violation : ∀ e ∈ relating, ∃ c violation,
    e.feature.compile c = .error (.invariant e.name violation) := by
  simp only [relating, List.forall_mem_cons, List.not_mem_nil, false_implies, implies_true,
    and_true]
  exact ⟨⟨squared, _, rfl⟩, ⟨reversed, _, rfl⟩, ⟨overwriting, _, rfl⟩⟩

end Entry

/-- **Precise blame.** A feature of this library makes a command, or blames the
value at one of the paths of its schema, or the relation between its settings
under the name of its entry, and the user can mend each of these. The relation
is blamed by three features and by no other one. The two features that read
nothing never fail. -/
theorem builtin_blames :
    List.Forall₂ (fun s e => e.feature = s.toFeature ∧ ∀ c, FailsBy
        (fun err => err.isUserError = true ∧
          ((∃ path ∈ s.paths, ∃ fault, err = .configuration path fault) ∨
            e ∈ [Entry.aspectRatio, Entry.trim, Entry.customRun] ∧
              ∃ violation, err = .invariant e.name violation))
        (e.feature.compile c))
      Schema.builtin FeatureCatalog.builtin.entries ∧
    (∀ e ∈ FeatureCatalog.builtin.entries, e ∈ [Entry.aspectRatio, Entry.trim, Entry.customRun] ↔
      ∃ c violation, e.feature.compile c = .error (.invariant e.name violation)) ∧
    (∀ c, ∃ command, Entry.grayscale.feature.compile c = .ok command) ∧
    ∀ c, ∃ command, Entry.removeAudio.feature.compile c = .ok command := by
  refine ⟨?_, fun e he => ⟨Entry.exists_violation e, ?_⟩, fun c => ⟨_, rfl⟩, fun c => ⟨_, rfl⟩⟩
  · refine feature_builtin.mp (fun s e hfeature hcompile => ⟨hfeature, fun c => ?_⟩) compile_builtin
    refine (hcompile c).mono fun err hblames => ⟨hblames.isUserError, ?_⟩
    cases hblames with
    | value hpath fault => exact .inl ⟨_, hpath, fault, rfl⟩
    | relation he violation => exact .inr ⟨he, violation, rfl⟩
  · rintro ⟨c, violation, hviolation⟩
    obtain ⟨s, -, hcompile⟩ := exists_of_forall₂_of_mem compile_builtin he
    exact (hcompile c _ hviolation).mem_relating

end MediaPipeline
