import MediaPipeline.Proofs.Decimal.Layout
import MediaPipeline.Proofs.Feature.Reading
/-!
# Feature/Arguments — what arguments a command is made of

A command is harmless where it has arguments, each of them one word, and none
of them a flag that is for the engine to give. The arguments of this library
are literals, numbers, names out of a fixed list, filters with an equals sign
in them, and the words of the user, which are checked one by one; numbers have
no letter and the flags of the engine have one (`Numeric.harmless`), and none of
those flags has an equals sign (`harmless_of_equals`). So every feature makes
harmless commands of the settings that it reads (`harmless_builtin`).
-/


namespace MediaPipeline

open Traversal

/-- An argument that is one word and no flag that only the engine gives. -/
def Harmless (arg : String) : Prop := Text.IsWord arg ∧ arg ∉ Verbatim.managed

instance (arg : String) : Decidable (Harmless arg) := inferInstanceAs (Decidable (_ ∧ _))

/-- A command that has arguments, and harmless ones only. -/
structure Command.Harmless (c : Command) : Prop where
  nonempty : c.args ≠ []
  harmless : ∀ arg ∈ c.args, MediaPipeline.Harmless arg

/-! ## Arguments -/

/-- A harmless argument names no input and does not say what happens to an
output that exists. -/
theorem Harmless.not_flag {arg : String} (h : Harmless arg) :
    arg ≠ "-i" ∧ arg ≠ "-y" ∧ arg ≠ "-n" := by
  simpa [Verbatim.managed] using h.2

theorem Text.Numeric.harmless {s : String} (h : Text.Numeric s) : Harmless s := by
  refine ⟨h.isWord, fun hmem => ?_⟩
  have hletter : ∀ flag ∈ Verbatim.managed, ¬ Text.Numeric flag := by decide
  exact hletter s hmem h

/-- **A filter is harmless,** for what it does is said with an equals sign. -/
theorem harmless_of_equals {s : String} (hword : Text.IsWord s) (hequals : '=' ∈ s.toList) :
    Harmless s := by
  have hflag : ∀ flag ∈ Verbatim.managed, '=' ∉ flag.toList := by decide
  exact ⟨hword, fun hmem => hflag s hmem hequals⟩

theorem isWord_colon {s : String} (hs : Text.IsWord s) (n : Nat) :
    Text.IsWord (s ++ ":" ++ toString n) :=
  (hs.append (by decide)).append (Text.numeric_toString n).isWord

theorem Command.harmless_pair {flag arg : String} {container : Option Container}
    (hflag : MediaPipeline.Harmless flag) (harg : MediaPipeline.Harmless arg) :
    Command.Harmless ⟨[flag, arg], container⟩ :=
  ⟨List.cons_ne_nil _ _, List.forall_mem_cons.mpr ⟨hflag, List.forall_mem_singleton.mpr harg⟩⟩

/-! ## Settings -/

section Settings

variable {c : Configuration} {path : String} {x : Float}

theorem isFinite_of_seconds (h : Timeline.seconds c path = .ok x) :
    Decimal.isFinite x = true := by
  unfold Timeline.seconds at h
  obtain ⟨y, hy, h⟩ := bind_eq_ok.mp h
  split at h
  · cases h
  · cases h
    exact (Configuration.number_eq_ok.mp hy).2

end Settings

/-! ## Features -/

/-- A schema that makes harmless commands of the settings that it reads. -/
def Schema.Harmless (s : Schema) : Prop :=
  ∀ c settings command, s.parse c = .ok settings → s.synthesize settings = .ok command →
    command.Harmless

section Schemas

open Text

theorem Frame.harmless_scale (width height : Nat) : (scale width height).Harmless := by
  refine Command.harmless_pair (by decide) ?_
  show Harmless ("scale=" ++ toString width ++ ":" ++ toString height)
  have hwidth : IsWord ("scale=" ++ toString width) :=
    IsWord.append (by decide) (numeric_toString width).isWord
  exact harmless_of_equals (isWord_colon hwidth height) (by simp)

theorem Frame.harmless_aspectRatio : aspectRatio.Harmless := by
  intro c settings command _ h
  change synthesizeRatio settings = .ok command at h
  unfold synthesizeRatio at h
  dsimp only at h
  split at h
  · cases h
  · cases h
    exact harmless_scale settings.width settings.height

theorem Frame.harmless_resize : resize.Harmless := by
  intro c size command _ h
  cases h
  exact harmless_scale size.width size.height

theorem Frame.harmless_crop : crop.Harmless := by
  intro c r command _ h
  cases h
  refine Command.harmless_pair (by decide) ?_
  show Harmless ("crop=" ++ toString r.width ++ ":" ++ toString r.height ++ ":" ++ toString r.x ++
    ":" ++ toString r.y)
  have hwidth : IsWord ("crop=" ++ toString r.width) :=
    IsWord.append (by decide) (numeric_toString r.width).isWord
  exact harmless_of_equals (isWord_colon (isWord_colon (isWord_colon hwidth _) _) _) (by simp)

theorem Timeline.harmless_trim : trim.Harmless := by
  intro c span command hparse h
  change parseSpan c = .ok span at hparse
  change synthesizeSpan span = .ok command at h
  obtain ⟨start, hstart, hparse⟩ := bind_eq_ok.mp hparse
  obtain ⟨stop, hstop, hparse⟩ := bind_eq_ok.mp hparse
  cases hparse
  unfold synthesizeSpan at h
  split at h
  · cases h
  · cases h
    have hstart := (Decimal.numeric_plain (isFinite_of_seconds hstart)).harmless
    have hstop := (Decimal.numeric_plain (isFinite_of_seconds hstop)).harmless
    refine ⟨List.cons_ne_nil _ _, ?_⟩
    simp only [List.forall_mem_cons, List.not_mem_nil, false_implies, implies_true, and_true]
    exact ⟨by decide, hstart, by decide, hstop⟩

theorem Encoding.harmless_compress : compress.Harmless := by
  intro c q command hparse h
  change parseQuality c = .ok q at hparse
  cases h
  obtain ⟨rateFactor, -, hparse⟩ := bind_eq_ok.mp hparse
  split at hparse
  · cases hparse
  · obtain ⟨given, -, hparse⟩ := bind_eq_ok.mp hparse
    dsimp only at hparse
    split at hparse
    · rename_i hlisted
      cases hparse
      have hpresets : ∀ preset ∈ presets, Harmless preset := by decide
      refine ⟨List.cons_ne_nil _ _, ?_⟩
      simp only [List.forall_mem_cons, List.not_mem_nil, false_implies, implies_true, and_true]
      exact ⟨by decide, by decide, by decide, (numeric_toString rateFactor).harmless, by decide,
        hpresets _ hlisted⟩
    · cases hparse

theorem Encoding.harmless_convert : convert.Harmless := by
  intro c container command _ h
  cases h
  exact Command.harmless_pair (by decide) (by cases container <;> decide)

theorem Stream.harmless_grayscale : grayscale.Harmless := by
  intro c settings command _ h
  cases h
  exact Command.harmless_pair (by decide) (by decide)

theorem Stream.harmless_removeAudio : removeAudio.Harmless := by
  intro c settings command _ h
  cases h
  exact ⟨by decide, by decide⟩

theorem Stream.harmless_volume : volume.Harmless := by
  intro c level command hparse h
  change parseLevel c = .ok level at hparse
  cases h
  obtain ⟨read, hread, hparse⟩ := bind_eq_ok.mp hparse
  split at hparse
  · cases hparse
  · cases hparse
    have hfinite := (Configuration.number_eq_ok.mp hread).2
    have hlevel := (Decimal.numeric_plain hfinite).isWord
    exact Command.harmless_pair (by decide)
      (harmless_of_equals (IsWord.append (by decide) hlevel) (by simp))

/-- What the user wrote is taken apart into words, and there is one. -/
theorem Verbatim.isWord_of_parseWords {c : Configuration} {args : List String}
    (h : parseWords c = .ok args) : args ≠ [] ∧ ∀ arg ∈ args, IsWord arg := by
  obtain ⟨text, -, h⟩ := bind_eq_ok.mp h
  split at h
  · cases h
  · rename_i hnonempty
    cases h
    exact ⟨hnonempty, fun arg => isWord_of_mem_words⟩

/-- Words pass unless one of them is for the engine. -/
theorem Verbatim.synthesizeWords_eq_ok {args : List String} {command : Command} :
    synthesizeWords args = .ok command ↔
      (∀ arg ∈ args, arg ∉ managed) ∧ command = ⟨args, none⟩ := by
  unfold synthesizeWords
  cases hfind : args.find? (managed.contains ·) with
  | none => simpa [eq_comm] using fun _ => List.find?_eq_none.mp hfind
  | some arg =>
    have harg : arg ∈ managed := by simpa using List.find?_some hfind
    simpa using fun hall => absurd harg (hall arg (List.mem_of_find?_eq_some hfind))

theorem Verbatim.harmless_customRun : customRun.Harmless := by
  intro c args command hparse h
  obtain ⟨hnonempty, hwords⟩ := isWord_of_parseWords hparse
  obtain ⟨hunmanaged, rfl⟩ := synthesizeWords_eq_ok.mp h
  exact ⟨hnonempty, fun arg harg => ⟨hwords arg harg, hunmanaged arg harg⟩⟩

end Schemas

/-- **Every schema of this library makes harmless commands.** -/
theorem harmless_builtin : ∀ s ∈ Schema.builtin, s.Harmless := by
  simp only [Schema.builtin, List.forall_mem_cons, List.not_mem_nil, false_implies, implies_true,
    and_true]
  exact ⟨Frame.harmless_aspectRatio, Frame.harmless_resize, Frame.harmless_crop,
    Timeline.harmless_trim, Encoding.harmless_compress, Encoding.harmless_convert,
    Stream.harmless_grayscale, Stream.harmless_removeAudio, Stream.harmless_volume,
    Verbatim.harmless_customRun⟩

/-- **Every feature of this library makes harmless commands.** -/
theorem harmless_of_compile {e : Entry} (he : e ∈ FeatureCatalog.builtin.entries)
    {c : Configuration} {command : Command} (h : e.feature.compile c = .ok command) :
    command.Harmless := by
  obtain ⟨s, hs, hfeature⟩ := exists_schema_builtin he
  rw [hfeature] at h
  obtain ⟨settings, hparse, hcommand⟩ := bind_eq_ok.mp h
  exact harmless_builtin s hs c settings command hparse hcommand

/-- A harmless command is written in one line without a loss. -/
theorem Command.Harmless.words_text {command : Command} (h : command.Harmless) :
    Text.words command.text = command.args :=
  Text.words_intercalate fun arg harg => (h.harmless arg harg).1

end MediaPipeline
