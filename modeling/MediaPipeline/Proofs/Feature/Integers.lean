import MediaPipeline.Proofs.Decimal.Exact
import MediaPipeline.Proofs.Feature.Reading
import MediaPipeline.Proofs.Text.Digits
import MediaPipeline.Proofs.Text.Pieces
/-!
# Feature/Integers — exact integers in, plain digits out

A configuration holds every number as a double. What counts as an integer there
is the exact value of the double, within bounds (`natural_eq_ok`,
`dimension_eq_ok_iff`), and a value that may be missing is looked at where it is
there (`optional_eq_ok`). In the command a number is written in base ten; where
numbers stand in one argument there are colons between them, so they can be told
from it (`colons_inj`). Three features take such integers. Each takes the
configurations that carry settings for it and no other ones, and its command
says which settings these are (`integers_exact`).
-/


namespace MediaPipeline

open Traversal

/-! ## Integers in a configuration -/

namespace Configuration

variable {c : Configuration} {path text : String} {v : Leaf} {n : Nat}

/-- The value at a path is a number, and exactly the given integer, which lies
within two bounds. -/
structure Holds (c : Configuration) (path : String) (least most n : Nat) : Prop where
  exact : ∃ x, c.get? path = some (.number x) ∧ Decimal.rational? x = some (n : ℚ)
  least_le : least ≤ n
  le_most : n ≤ most

/-- The same of a value that may be missing, which then counts as zero. -/
def HoldsOrZero (c : Configuration) (path : String) (most n : Nat) : Prop :=
  c.get? path = none ∧ n = 0 ∨ c.Holds path 0 most n

theorem value_eq_ok : c.value path = .ok v ↔ c.get? path = some v := by
  unfold value
  cases c.get? path <;> simp [blame]

theorem text_eq_ok : c.text path = .ok text ↔ c.get? path = some (.text text) := by
  unfold Configuration.text
  rw [bind_eq_ok, ← value_eq_ok]
  constructor
  · rintro ⟨v, hvalue, h⟩
    cases v <;> cases h
    exact hvalue
  · exact fun h => ⟨_, h, rfl⟩

/-- **A natural number is read where there is one exactly,** and it fits
thirty-two bits. -/
theorem natural_eq_ok : c.natural path = .ok n ↔ c.Holds path 0 (2 ^ 32 - 1) n := by
  unfold natural
  rw [bind_eq_ok, Nat.pow_eq]
  constructor
  · rintro ⟨x, hnumber, h⟩
    have hvalue := value_eq_ok.mp (number_eq_ok.mp hnumber).1
    cases hnatural : Decimal.natural? x with
    | none =>
      rw [hnatural] at h
      cases h
    | some m =>
      rw [hnatural] at h
      dsimp only at h
      split at h
      · cases h
        exact ⟨⟨x, hvalue, Decimal.natural?_eq_some.mp hnatural⟩, Nat.zero_le n, by omega⟩
      · cases h
  · rintro ⟨⟨x, hget, hx⟩, -, hmost⟩
    have hfinite := Decimal.isFinite_of_rational? hx
    refine ⟨x, number_eq_ok.mpr ⟨value_eq_ok.mpr hget, hfinite⟩, ?_⟩
    rw [Decimal.natural?_eq_some.mpr hx]
    exact if_pos (by omega)

/-- A value that may be missing is read, or it is the default. -/
theorem optional_eq_ok {α : Type} {read : Configuration → String → Except Error α}
    {default a : α} (hread : ∀ a, read c path = .ok a → c.get? path ≠ none) :
    (∃ given, c.optional path read = .ok given ∧ given.getD default = a) ↔
      c.get? path = none ∧ a = default ∨ read c path = .ok a := by
  unfold Configuration.optional
  cases hget : c.get? path with
  | none =>
    have hnone : read c path ≠ .ok a := fun h => hread a h hget
    simp [hnone, eq_comm]
  | some v =>
    simp only [map_eq_ok]
    constructor
    · rintro ⟨_, ⟨b, hb, rfl⟩, rfl⟩
      exact .inr hb
    · rintro (⟨h, -⟩ | h)
      · cases h
      · exact ⟨_, ⟨a, h, rfl⟩, rfl⟩

theorem optional_natural_eq_ok :
    (∃ given, c.optional path natural = .ok given ∧ given.getD 0 = n) ↔
      c.HoldsOrZero path (2 ^ 32 - 1) n := by
  unfold HoldsOrZero
  rw [optional_eq_ok fun a ha => ?_, natural_eq_ok]
  obtain ⟨x, hget, -⟩ := (natural_eq_ok.mp ha).exact
  rw [hget]
  exact Option.some_ne_none _

theorem optional_text_eq_ok {default : String} :
    (∃ given, c.optional path Configuration.text = .ok given ∧ given.getD default = text) ↔
      c.get? path = none ∧ text = default ∨ c.get? path = some (.text text) := by
  rw [optional_eq_ok fun a ha => ?_, text_eq_ok]
  rw [text_eq_ok.mp ha]
  exact Option.some_ne_none _

end Configuration

/-! ## Integers in an argument -/

namespace Text

/-- Numbers in base ten with colons between them. -/
def colons (ns : List Nat) : String := String.intercalate ":" (ns.map fun n => toString n)

theorem pieces_colons {ns : List Nat} (hne : ns ≠ []) :
    pieces ':' (colons ns) = ns.map fun n => toString n := by
  refine pieces_intercalate (mt List.map_eq_nil_iff.mp hne) (List.forall_mem_map.mpr ?_)
  intro n _ hcolon
  cases isDigit_of_mem_toString hcolon

/-- **Numbers with colons between them can be told from the text.** -/
theorem colons_inj {ns ms : List Nat} (hns : ns ≠ []) (hms : ms ≠ [])
    (h : colons ns = colons ms) : ns = ms := by
  have htexts : (ns.map fun n => toString n) = ms.map fun n => toString n := by
    calc (ns.map fun n => toString n) = pieces ':' (colons ns) := (pieces_colons hns).symm
      _ = ms.map fun n => toString n := h ▸ pieces_colons hms
  exact List.map_injective_iff.mpr toString_injective htexts

end Text

/-! ## Exact schemas -/

/-- **A schema is exact** in the settings that it reads and in the arguments that
it makes of them. Its feature compiles a configuration where that one carries
settings, to the arguments of these settings; and two configurations get the
same only where they carry the same settings. -/
structure Schema.Exact (s : Schema) (Carries : Configuration → s.Settings → Prop)
    (args : s.Settings → List String) : Prop where
  accepts : ∀ c, (∃ command, s.toFeature.compile c = .ok command) ↔ ∃ settings, Carries c settings
  renders : ∀ c settings, Carries c settings →
    s.toFeature.compile c = .ok ⟨args settings, none⟩
  same : ∀ c d settings others, Carries c settings → Carries d others →
    (s.toFeature.compile c = s.toFeature.compile d ↔ settings = others)

/-- It is enough that the parser reads the settings that are carried, and that
different settings make different arguments. -/
theorem Schema.Exact.of_parse {s : Schema} {Carries : Configuration → s.Settings → Prop}
    {args : s.Settings → List String}
    (hparse : ∀ c settings, s.parse c = .ok settings ↔ Carries c settings)
    (hsynthesize : ∀ settings, s.synthesize settings = .ok ⟨args settings, none⟩)
    (hargs : Function.Injective args) : s.Exact Carries args := by
  have hrenders (c settings) (h : Carries c settings) :
      s.toFeature.compile c = .ok ⟨args settings, none⟩ :=
    bind_eq_ok.mpr ⟨settings, (hparse c settings).mpr h, hsynthesize settings⟩
  refine ⟨fun c => ⟨?_, fun ⟨settings, h⟩ => ⟨_, hrenders c settings h⟩⟩, hrenders, ?_⟩
  · rintro ⟨command, h⟩
    obtain ⟨settings, hsettings, -⟩ := bind_eq_ok.mp h
    exact ⟨settings, (hparse c settings).mp hsettings⟩
  · intro c d settings others hc hd
    rw [hrenders c settings hc, hrenders d others hd, Except.ok.injEq, Command.mk.injEq,
      hargs.eq_iff, and_iff_left rfl]

/-! ## Frames -/

namespace Frame

variable {c : Configuration} {path : String} {n : Nat} {s : Size} {r : Rectangle}

theorem dimension_eq_ok_iff : dimension c path = .ok n ↔ c.Holds path 1 maxDimension n := by
  have hmax : maxDimension ≤ 2 ^ 32 - 1 := by decide
  rw [dimension_eq_ok, Configuration.natural_eq_ok]
  constructor
  · rintro ⟨⟨hexact, -, -⟩, hlow, hhigh⟩
    exact ⟨hexact, hlow, hhigh⟩
  · rintro ⟨hexact, hlow, hhigh⟩
    exact ⟨⟨hexact, Nat.zero_le n, hhigh.trans hmax⟩, hlow, hhigh⟩

/-- The size that a configuration carries for `resize`. -/
structure CarriesSize (c : Configuration) (s : Size) : Prop where
  width : c.Holds "RESIZE.WIDTH" 1 maxDimension s.width
  height : c.Holds "RESIZE.HEIGHT" 1 maxDimension s.height

/-- The rectangle that a configuration carries for `crop`. -/
structure CarriesRectangle (c : Configuration) (r : Rectangle) : Prop where
  width : c.Holds "CROP.WIDTH" 1 maxDimension r.width
  height : c.Holds "CROP.HEIGHT" 1 maxDimension r.height
  x : c.HoldsOrZero "CROP.X" (2 ^ 32 - 1) r.x
  y : c.HoldsOrZero "CROP.Y" (2 ^ 32 - 1) r.y

theorem parseSize_eq_ok : parseSize c = .ok s ↔ CarriesSize c s := by
  unfold parseSize
  simp only [bind_eq_ok, dimension_eq_ok_iff]
  constructor
  · rintro ⟨width, hwidth, height, hheight, h⟩
    cases h
    exact ⟨hwidth, hheight⟩
  · exact fun ⟨hwidth, hheight⟩ => ⟨_, hwidth, _, hheight, rfl⟩

theorem parseRectangle_eq_ok : parseRectangle c = .ok r ↔ CarriesRectangle c r := by
  unfold parseRectangle
  simp only [bind_eq_ok, dimension_eq_ok_iff]
  constructor
  · rintro ⟨width, hwidth, height, hheight, x, hx, y, hy, h⟩
    cases h
    have hx := Configuration.optional_natural_eq_ok.mp ⟨x, hx, rfl⟩
    have hy := Configuration.optional_natural_eq_ok.mp ⟨y, hy, rfl⟩
    exact ⟨hwidth, hheight, hx, hy⟩
  · rintro ⟨hwidth, hheight, hx, hy⟩
    obtain ⟨x, hx, hgivenx⟩ := Configuration.optional_natural_eq_ok.mpr hx
    obtain ⟨y, hy, hgiveny⟩ := Configuration.optional_natural_eq_ok.mpr hy
    refine ⟨_, hwidth, _, hheight, x, hx, y, hy, ?_⟩
    rw [hgivenx, hgiveny]

/-- The arguments for a filter of the picture that takes numbers. -/
def filterArgs (name : String) (ns : List Nat) : List String :=
  ["-vf", name ++ "=" ++ Text.colons ns]

theorem filterArgs_inj {name : String} {ns ms : List Nat} (hns : ns ≠ []) (hms : ms ≠ [])
    (h : filterArgs name ns = filterArgs name ms) : ns = ms := by
  have htext := (List.cons.inj (List.cons.inj h).2).1
  exact Text.colons_inj hns hms ((String.append_right_inj _).mp htext)

/-- The arguments that a size is written in. -/
def Size.args (s : Size) : List String := filterArgs "scale" [s.width, s.height]

/-- The arguments that a rectangle is written in. -/
def Rectangle.args (r : Rectangle) : List String :=
  filterArgs "crop" [r.width, r.height, r.x, r.y]

theorem Size.args_injective : Function.Injective Size.args := by
  intro s t h
  have hnumbers := filterArgs_inj (List.cons_ne_nil _ _) (List.cons_ne_nil _ _) h
  cases s
  cases t
  simpa using hnumbers

theorem Rectangle.args_injective : Function.Injective Rectangle.args := by
  intro r t h
  have hnumbers := filterArgs_inj (List.cons_ne_nil _ _) (List.cons_ne_nil _ _) h
  cases r
  cases t
  simpa using hnumbers

theorem exact_resize : resize.Exact CarriesSize Size.args := by
  refine .of_parse (fun _ _ => parseSize_eq_ok) (fun s => ?_) Size.args_injective
  have hargs : ["-vf", "scale=" ++ toString s.width ++ ":" ++ toString s.height] = Size.args s := by
    simp [Size.args, filterArgs, Text.colons, String.append_assoc]
  exact congrArg (fun args => Except.ok (Command.mk args none)) hargs

theorem exact_crop : crop.Exact CarriesRectangle Rectangle.args := by
  refine .of_parse (fun _ _ => parseRectangle_eq_ok) (fun r => ?_) Rectangle.args_injective
  have hargs : ["-vf", "crop=" ++ toString r.width ++ ":" ++ toString r.height ++ ":" ++
      toString r.x ++ ":" ++ toString r.y] = Rectangle.args r := by
    simp [Rectangle.args, filterArgs, Text.colons, String.append_assoc]
  exact congrArg (fun args => Except.ok (Command.mk args none)) hargs

end Frame

/-! ## Qualities -/

namespace Encoding

variable {c : Configuration} {q : Quality}

/-- The rate factor and the preset that a configuration carries for
`compress`. -/
structure CarriesQuality (c : Configuration) (q : Quality) : Prop where
  rateFactor : c.Holds "COMPRESS.CRF" 0 maxRateFactor q.rateFactor
  preset : c.get? "COMPRESS.PRESET" = none ∧ q.preset = defaultPreset ∨
    c.get? "COMPRESS.PRESET" = some (.text q.preset) ∧ q.preset ∈ presets

theorem parseQuality_eq_ok : parseQuality c = .ok q ↔ CarriesQuality c q := by
  have hmax : maxRateFactor ≤ 2 ^ 32 - 1 := by decide
  unfold parseQuality
  rw [bind_eq_ok]
  constructor
  · rintro ⟨rateFactor, hrate, h⟩
    split at h
    · cases h
    rename_i hle
    obtain ⟨given, hgiven, h⟩ := bind_eq_ok.mp h
    dsimp only at h
    split at h
    · rename_i hpreset
      cases h
      have hexact := (Configuration.natural_eq_ok.mp hrate).exact
      refine ⟨⟨hexact, Nat.zero_le _, Nat.le_of_not_lt hle⟩, ?_⟩
      exact (Configuration.optional_text_eq_ok.mp ⟨given, hgiven, rfl⟩).imp_right
        fun hget => ⟨hget, hpreset⟩
    · cases h
  · rintro ⟨⟨hexact, hleast, hle⟩, hpreset⟩
    have hrate := Configuration.natural_eq_ok.mpr ⟨hexact, hleast, hle.trans hmax⟩
    have hmem : q.preset ∈ presets := by
      rcases hpreset with ⟨-, hpreset⟩ | ⟨-, hpreset⟩
      · rw [hpreset]
        decide
      · exact hpreset
    obtain ⟨given, hgiven, hq⟩ :=
      Configuration.optional_text_eq_ok.mpr (hpreset.imp_right And.left)
    refine ⟨_, hrate, ?_⟩
    rw [if_neg (Nat.not_lt.mpr hle)]
    refine bind_eq_ok.mpr ⟨given, hgiven, ?_⟩
    dsimp only
    rw [hq, if_pos hmem]

/-- The arguments that a quality is written in. -/
def Quality.args (q : Quality) : List String :=
  ["-c:v", "libx264", "-crf", toString q.rateFactor, "-preset", q.preset]

theorem Quality.args_injective : Function.Injective Quality.args := by
  intro q t h
  simp only [Quality.args, List.cons.injEq, true_and, and_true] at h
  obtain ⟨hrate, hpreset⟩ := h
  have hrate := Text.toString_injective hrate
  cases q
  cases t
  exact congrArg₂ Quality.mk hrate hpreset

theorem exact_compress : compress.Exact CarriesQuality Quality.args :=
  .of_parse (fun _ _ => parseQuality_eq_ok) (fun _ => rfl) Quality.args_injective

end Encoding

/-- **Three features are exact in their integers.** Each compiles a configuration
where the numbers at its paths are exactly integers within its bounds, and where
the corner of a rectangle or the preset, if there is any, is one it knows. The
command has the integers in base ten, and differs where they do. -/
theorem integers_exact :
    Frame.resize.Exact Frame.CarriesSize Frame.Size.args ∧
    Frame.crop.Exact Frame.CarriesRectangle Frame.Rectangle.args ∧
    Encoding.compress.Exact Encoding.CarriesQuality Encoding.Quality.args :=
  ⟨Frame.exact_resize, Frame.exact_crop, Encoding.exact_compress⟩

end MediaPipeline
