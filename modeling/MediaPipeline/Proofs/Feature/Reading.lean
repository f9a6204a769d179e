import MediaPipeline.Feature.Catalog
import MediaPipeline.Proofs.Traversal
/-!
# Feature/Reading — what a feature reads

A schema declares the paths that it reads, but its parser is handed the whole
configuration. `Reads` says of a parser that it keeps to some paths: it gives
the same for any two configurations that agree there, whatever else is in
them, and where it fails it blames one of the paths. A value is read at its one
path (`reads_value`, and the accessors behind it), and parsers one after the
other keep to the paths of both (`Reads.bind`); so each parser of this library
is followed through its accessors to the paths that its schema declares
(`reads_builtin`). The command is made from the settings alone, so what a
feature answers depends on those paths and nothing else (`builtin_closed`).
-/


namespace MediaPipeline

open Traversal

/-- Whether a failure blames a configuration for the value at one of the
paths. -/
def Error.BlamesPath (paths : List String) : Error → Prop
  | .configuration path _ => path ∈ paths
  | _ => False

/-- Two configurations with the same values at some paths. What else they hold,
and how deep it is nested, may differ. -/
def Configuration.AgreeOn (paths : List String) (c d : Configuration) : Prop :=
  ∀ path ∈ paths, c.get? path = d.get? path

/-- **A parser that keeps to some paths:** it looks at nothing but the values
there, and it blames nothing else. -/
structure Reads {α : Type} (paths : List String) (parse : Configuration → Except Error α) :
    Prop where
  same : ∀ c d, Configuration.AgreeOn paths c d → parse c = parse d
  blames : ∀ c, FailsBy (Error.BlamesPath paths) (parse c)

section Reads

variable {α β : Type} {paths : List String} {path : String}

/-! ## Parsers out of parsers -/

namespace Reads

/-- What does not look at the configuration keeps to any paths. -/
theorem ok (a : α) : Reads paths fun _ => .ok a where
  same _ _ _ := rfl
  blames _ := FailsBy.ok a

theorem blame (hpath : path ∈ paths) (fault : ConfigurationFault) :
    Reads paths fun _ => (Configuration.blame path fault : Except Error α) where
  same _ _ _ := rfl
  blames _ := FailsBy.error hpath

/-- **Parsers one after the other,** where the second may depend on what the
first gave. -/
theorem bind {first : Configuration → Except Error α}
    {next : α → Configuration → Except Error β} (hfirst : Reads paths first)
    (hnext : ∀ a, Reads paths (next a)) : Reads paths fun c => first c >>= fun a => next a c where
  same c d hagree := by
    rw [hfirst.same c d hagree]
    refine congrArg (first d >>= ·) (funext fun a => ?_)
    exact (hnext a).same c d hagree
  blames c := (hfirst.blames c).bind fun a _ => (hnext a).blames c

end Reads

/-! ## Values at a path -/

theorem reads_value (hpath : path ∈ paths) : Reads paths fun c => c.value path where
  same c d hagree := by
    unfold Configuration.value
    rw [hagree path hpath]
  blames c := by
    unfold Configuration.value
    cases c.get? path with
    | some v => exact FailsBy.ok v
    | none => exact FailsBy.error hpath

/-- A number that is read is the value at its path, and finite. -/
theorem Configuration.number_eq_ok {c : Configuration} {x : Float} :
    c.number path = .ok x ↔ c.value path = .ok (.number x) ∧ Decimal.isFinite x = true := by
  unfold Configuration.number
  rw [bind_eq_ok]
  constructor
  · rintro ⟨v, hvalue, h⟩
    cases v with
    | number y =>
      dsimp only at h
      split at h
      · rename_i hfinite
        cases h
        exact ⟨hvalue, hfinite⟩
      · cases h
    | bool b => cases h
    | text t => cases h
  · rintro ⟨hvalue, hfinite⟩
    exact ⟨.number x, hvalue, if_pos hfinite⟩

theorem reads_number (hpath : path ∈ paths) : Reads paths fun c => c.number path := by
  unfold Configuration.number
  refine (reads_value hpath).bind fun v => ?_
  cases v with
  | number x =>
    dsimp only
    split
    · exact .ok x
    · exact .blame hpath _
  | bool b => exact .blame hpath _
  | text s => exact .blame hpath _

theorem reads_natural (hpath : path ∈ paths) : Reads paths fun c => c.natural path := by
  unfold Configuration.natural
  refine (reads_number hpath).bind fun x => ?_
  cases Decimal.natural? x with
  | none => exact .blame hpath _
  | some n =>
    dsimp only
    split
    · exact .ok n
    · exact .blame hpath _

theorem reads_text (hpath : path ∈ paths) : Reads paths fun c => c.text path := by
  unfold Configuration.text
  refine (reads_value hpath).bind fun v => ?_
  cases v with
  | text s => exact .ok s
  | bool b => exact .blame hpath _
  | number x => exact .blame hpath _

/-- A value that may be missing is looked for at the path where it is read. -/
theorem reads_optional {read : Configuration → String → Except Error α} (hpath : path ∈ paths)
    (hread : Reads paths fun c => read c path) : Reads paths fun c => c.optional path read where
  same c d hagree := by
    unfold Configuration.optional
    rw [hagree path hpath]
    cases d.get? path with
    | none => rfl
    | some v => exact congrArg (Except.map some) (hread.same c d hagree)
  blames c := by
    unfold Configuration.optional
    cases c.get? path with
    | none => exact FailsBy.ok none
    | some v => exact (hread.blames c).map

end Reads

/-! ## The parsers of this library -/

section Parsers

variable {paths : List String} {path : String}

/-- A dimension is a natural number that is neither zero nor too large. -/
theorem Frame.dimension_eq_ok {c : Configuration} {n : Nat} :
    Frame.dimension c path = .ok n ↔
      c.natural path = .ok n ∧ 1 ≤ n ∧ n ≤ Frame.maxDimension := by
  unfold Frame.dimension
  rw [bind_eq_ok]
  constructor
  · rintro ⟨m, hm, h⟩
    split at h
    · cases h
    · cases h
      exact ⟨hm, by omega, by omega⟩
  · rintro ⟨hn, hlow, hhigh⟩
    exact ⟨n, hn, if_neg (by omega)⟩

theorem reads_dimension (hpath : path ∈ paths) : Reads paths fun c => Frame.dimension c path := by
  unfold Frame.dimension
  refine (reads_natural hpath).bind fun n => ?_
  split
  · exact .blame hpath _
  · exact .ok n

/-- The ratio is looked at twice where it is no text, at the same path. -/
theorem reads_declaredRatio (hpath : "ASPECT_RATIO" ∈ paths) :
    Reads paths Frame.declaredRatio := by
  unfold Frame.declaredRatio
  refine (reads_value hpath).bind fun v => ?_
  cases v with
  | text s =>
    dsimp only
    cases Frame.ratio? s with
    | some x => exact .ok x
    | none => exact .blame hpath _
  | bool b => exact reads_number hpath
  | number x => exact reads_number hpath

theorem reads_aspectRatio : Reads Frame.aspectRatio.paths Frame.aspectRatio.parse := by
  show Reads _ Frame.parseRatio
  unfold Frame.parseRatio
  refine (reads_declaredRatio (by decide)).bind fun ratio => ?_
  split
  · exact .blame (by decide) _
  · refine (reads_dimension (by decide)).bind fun width => ?_
    refine (reads_dimension (by decide)).bind fun height => ?_
    exact .ok _

theorem reads_resize : Reads Frame.resize.paths Frame.resize.parse := by
  show Reads _ Frame.parseSize
  unfold Frame.parseSize
  refine (reads_dimension (by decide)).bind fun width => ?_
  refine (reads_dimension (by decide)).bind fun height => ?_
  exact .ok _

theorem reads_crop : Reads Frame.crop.paths Frame.crop.parse := by
  show Reads _ Frame.parseRectangle
  unfold Frame.parseRectangle
  refine (reads_dimension (by decide)).bind fun width => ?_
  refine (reads_dimension (by decide)).bind fun height => ?_
  refine (reads_optional (by decide) (reads_natural (by decide))).bind fun x => ?_
  refine (reads_optional (by decide) (reads_natural (by decide))).bind fun y => ?_
  exact .ok _

theorem reads_seconds (hpath : path ∈ paths) : Reads paths fun c => Timeline.seconds c path := by
  unfold Timeline.seconds
  refine (reads_number hpath).bind fun x => ?_
  split
  · exact .blame hpath _
  · exact .ok x

theorem reads_trim : Reads Timeline.trim.paths Timeline.trim.parse := by
  show Reads _ Timeline.parseSpan
  unfold Timeline.parseSpan
  refine (reads_seconds (by decide)).bind fun start => ?_
  refine (reads_seconds (by decide)).bind fun stop => ?_
  exact .ok _

theorem reads_compress : Reads Encoding.compress.paths Encoding.compress.parse := by
  show Reads _ Encoding.parseQuality
  unfold Encoding.parseQuality
  refine (reads_natural (by decide)).bind fun rateFactor => ?_
  split
  · exact .blame (by decide) _
  · refine (reads_optional (by decide) (reads_text (by decide))).bind fun given => ?_
    dsimp only
    split
    · exact .ok _
    · exact .blame (by decide) _

theorem reads_convert : Reads Encoding.convert.paths Encoding.convert.parse := by
  show Reads _ Encoding.parseFormat
  unfold Encoding.parseFormat
  refine (reads_text (by decide)).bind fun name => ?_
  cases Container.parse name with
  | ok container => exact .ok container
  | error unknown => exact .blame (by decide) _

theorem reads_constant (args : List String) :
    Reads (Stream.constant args).paths (Stream.constant args).parse :=
  .ok ()

theorem reads_volume : Reads Stream.volume.paths Stream.volume.parse := by
  show Reads _ Stream.parseLevel
  unfold Stream.parseLevel
  refine (reads_number (by decide)).bind fun level => ?_
  split
  · exact .blame (by decide) _
  · exact .ok level

theorem reads_customRun : Reads Verbatim.customRun.paths Verbatim.customRun.parse := by
  show Reads _ Verbatim.parseWords
  unfold Verbatim.parseWords
  refine (reads_text (by decide)).bind fun text => ?_
  cases Text.words text with
  | nil => exact .blame (by decide) _
  | cons word rest => exact .ok _

end Parsers

/-! ## All features -/

/-- The schemas of the features of this library, in the order of display. -/
def Schema.builtin : List Schema :=
  [Frame.aspectRatio, Frame.resize, Frame.crop, Timeline.trim, Encoding.compress,
    Encoding.convert, Stream.grayscale, Stream.removeAudio, Stream.volume, Verbatim.customRun]

/-- The features in the catalog are those of the schemas, one by one. -/
theorem feature_builtin :
    List.Forall₂ (fun s e => e.feature = s.toFeature)
      Schema.builtin FeatureCatalog.builtin.entries := by
  have hsame : Schema.builtin.map Schema.toFeature =
      FeatureCatalog.builtin.entries.map Entry.feature := rfl
  rw [← List.forall₂_eq_eq_eq, List.forall₂_map_left_iff, List.forall₂_map_right_iff] at hsame
  exact hsame.imp fun _ _ => Eq.symm

/-- A feature in the catalog is that of a schema. -/
theorem exists_schema_builtin {e : Entry} (he : e ∈ FeatureCatalog.builtin.entries) :
    ∃ s ∈ Schema.builtin, e.feature = s.toFeature :=
  exists_of_forall₂_of_mem feature_builtin he

/-- **Every parser of this library keeps to the paths of its schema.** -/
theorem reads_builtin : ∀ s ∈ Schema.builtin, Reads s.paths s.parse := by
  simp only [Schema.builtin, List.forall_mem_cons, List.not_mem_nil, false_implies, implies_true,
    and_true]
  exact ⟨reads_aspectRatio, reads_resize, reads_crop, reads_trim, reads_compress, reads_convert,
    reads_constant _, reads_constant _, reads_volume, reads_customRun⟩

/-- A schema is closed where its feature answers two configurations the same
that agree at the paths of the schema. -/
def Schema.Closed (s : Schema) : Prop :=
  ∀ c d, Configuration.AgreeOn s.paths c d → s.toFeature.compile c = s.toFeature.compile d

theorem Reads.closed {s : Schema} (h : Reads s.paths s.parse) : s.Closed := by
  intro c d hagree
  show (s.parse c >>= fun settings => s.synthesize settings) =
    s.parse d >>= fun settings => s.synthesize settings
  rw [h.same c d hagree]

/-- **Every feature of this library has a closed schema.** The features in the
catalog are those of the schemas, one by one, and each gives the same command
or the same failure for any two configurations with the same values at the
paths of its schema: no other value, no neighbour and no nesting counts. -/
theorem builtin_closed :
    List.Forall₂ (fun s e => s.Closed ∧ e.feature = s.toFeature)
      Schema.builtin FeatureCatalog.builtin.entries := by
  exact (List.forall₂_and_left _ _).mpr
    ⟨fun s hs => (reads_builtin s hs).closed, feature_builtin⟩

end MediaPipeline
