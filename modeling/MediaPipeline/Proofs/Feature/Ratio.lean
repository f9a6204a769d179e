import MediaPipeline.Proofs.Decimal.Magnitude
import MediaPipeline.Proofs.Feature.Reading
/-!
# Feature/Ratio — which ratios dimensions are accepted for

A declared ratio passes two checks on the way to a command: it must not be zero
or less, and the ratio of the dimensions must not be further from it than the
tolerance. Both are denials of a comparison. The ratio of the dimensions is a
finite number (`isFinite_actualRatio`), so an infinite ratio is refused, being
infinitely far away, and a finite one passes where the comparisons hold
(`passes_iff`). What is no number passes as well. A number that is read is
finite, but a text may declare such a ratio, by naming it or by dividing one
infinity by another (`exists_isNaN_declares_iff`); so the feature makes a command for a
ratio that the dimensions match, or for one of these
(`compile_aspectRatio_eq_ok`).
-/


namespace MediaPipeline

open Traversal

namespace Frame

variable {c : Configuration} {path text : String} {x : Float} {n width height : Nat}
variable {s : RatioSettings} {command : Command}

/-! ## What is declared -/

theorem ratio?_eq_some :
    ratio? text = some x ↔
      ∃ a b, operands? text = some (a, b) ∧ (b != 0.0) = true ∧ a / b = x := by
  unfold ratio?
  rw [Option.bind_eq_bind, Option.bind_eq_some_iff]
  constructor
  · rintro ⟨⟨a, b⟩, hoperands, h⟩
    obtain ⟨hb, h⟩ := Option.ite_none_right_eq_some.mp h
    exact ⟨a, b, hoperands, hb, Option.some.inj h⟩
  · rintro ⟨a, b, hoperands, hb, rfl⟩
    exact ⟨(a, b), hoperands, if_pos hb⟩

/-- The ratio that a configuration declares: a finite number, or a text with two
numbers of which the second is not zero. -/
inductive Declares (c : Configuration) : Float → Prop
  | number {x : Float} (hvalue : c.value "ASPECT_RATIO" = .ok (.number x))
      (hfinite : x.isFinite = true) : Declares c x
  | text {text : String} {a b : Float} (hvalue : c.value "ASPECT_RATIO" = .ok (.text text))
      (hoperands : operands? text = some (a, b)) (hb : (b != 0.0) = true) : Declares c (a / b)

theorem declaredRatio_eq_ok : declaredRatio c = .ok x ↔ Declares c x := by
  unfold declaredRatio
  rw [bind_eq_ok]
  constructor
  · rintro ⟨v, hvalue, h⟩
    cases v with
    | text t =>
      dsimp only at h
      cases hratio : ratio? t with
      | none =>
        rw [hratio] at h
        cases h
      | some y =>
        rw [hratio] at h
        cases h
        obtain ⟨a, b, hoperands, hb, rfl⟩ := ratio?_eq_some.mp hratio
        exact .text hvalue hoperands hb
    | number y =>
      obtain ⟨hnumber, hfinite⟩ := Configuration.number_eq_ok.mp h
      exact .number hnumber (Decimal.isFinite_eq x ▸ hfinite)
    | bool b =>
      obtain ⟨hnumber, -⟩ := Configuration.number_eq_ok.mp h
      cases hvalue.symm.trans hnumber
  · rintro (⟨hvalue, hfinite⟩ | ⟨hvalue, hoperands, hb⟩)
    · rw [← Decimal.isFinite_eq] at hfinite
      exact ⟨_, hvalue, Configuration.number_eq_ok.mpr ⟨hvalue, hfinite⟩⟩
    · refine ⟨_, hvalue, ?_⟩
      dsimp only
      rw [ratio?_eq_some.mpr ⟨_, _, hoperands, hb, rfl⟩]

/-- **What is declared is no number** where a text names one of its two numbers
so, or gives two infinities. -/
theorem exists_isNaN_declares_iff :
    (∃ x, Declares c x ∧ x.isNaN = true) ↔
      ∃ text a b, c.value "ASPECT_RATIO" = .ok (.text text) ∧ operands? text = some (a, b) ∧
        (b != 0.0) = true ∧
        (a.isNaN = true ∨ b.isNaN = true ∨ a.isInf = true ∧ b.isInf = true) := by
  constructor
  · rintro ⟨x, hdeclares, hx⟩
    cases hdeclares with
    | number hvalue hfinite =>
      rw [Decimal.isNaN_of_isFinite hfinite] at hx
      cases hx
    | text hvalue hoperands hb =>
      exact ⟨_, _, _, hvalue, hoperands, hb, (Decimal.isNaN_div hb).mp hx⟩
  · rintro ⟨text, a, b, hvalue, hoperands, hb, hnan⟩
    exact ⟨a / b, .text hvalue hoperands hb, (Decimal.isNaN_div hb).mpr hnan⟩

/-! ## What is read -/

theorem parseRatio_eq_ok :
    parseRatio c = .ok s ↔ Declares c s.ratio ∧ ¬ s.ratio ≤ 0.0 ∧
      dimension c "ASPECT_RATIO.WIDTH" = .ok s.width ∧
      dimension c "ASPECT_RATIO.HEIGHT" = .ok s.height := by
  unfold parseRatio
  simp only [bind_eq_ok, declaredRatio_eq_ok]
  constructor
  · rintro ⟨ratio, hratio, h⟩
    split at h
    · cases h
    · rename_i hpositive
      obtain ⟨width, hwidth, h⟩ := bind_eq_ok.mp h
      obtain ⟨height, hheight, h⟩ := bind_eq_ok.mp h
      cases h
      exact ⟨hratio, hpositive, hwidth, hheight⟩
  · rintro ⟨hratio, hpositive, hwidth, hheight⟩
    refine ⟨_, hratio, ?_⟩
    rw [if_neg hpositive]
    exact bind_eq_ok.mpr ⟨_, hwidth, bind_eq_ok.mpr ⟨_, hheight, rfl⟩⟩

theorem synthesizeRatio_eq_ok :
    synthesizeRatio s = .ok command ↔
      ¬ (actualRatio s.width s.height - s.ratio).abs > ratioTolerance ∧
        command = scale s.width s.height := by
  unfold synthesizeRatio
  dsimp only
  split
  · rename_i hfar
    simp [hfar]
  · rename_i hnear
    simp [hnear, eq_comm]

/-! ## What passes the checks -/

theorem isFinite_actualRatio (hwidth : 1 ≤ width ∧ width ≤ maxDimension)
    (hheight : 1 ≤ height ∧ height ≤ maxDimension) :
    (actualRatio width height).isFinite = true := by
  have hmax : maxDimension < 2 ^ 53 := by decide
  exact Decimal.isFinite_div_ofNat hwidth.1 (by omega) hheight.1 (by omega)

/-- **A ratio passes both checks** where it is positive and the dimensions match
it, or where it is no number. -/
theorem passes_iff (hwidth : 1 ≤ width ∧ width ≤ maxDimension)
    (hheight : 1 ≤ height ∧ height ≤ maxDimension) :
    ¬ x ≤ 0.0 ∧ ¬ (actualRatio width height - x).abs > ratioTolerance ↔
      x.isNaN = true ∨ x.isFinite = true ∧ 0.0 < x ∧
        (actualRatio width height - x).abs ≤ ratioTolerance := by
  have hactual := isFinite_actualRatio hwidth hheight
  have hzero : (0.0 : Float).isNaN = false := rfl
  have htolerance : ratioTolerance.isFinite = true := rfl
  by_cases hx : x.isNaN = true
  · have hdistance : (actualRatio width height - x).abs.isNaN = true := by
      rw [Decimal.isNaN_abs, Decimal.isNaN_sub hactual, hx]
    exact ⟨fun _ => .inl hx, fun _ =>
      ⟨Decimal.not_le_of_isNaN (.inl hx), Decimal.not_lt_of_isNaN (.inr hdistance)⟩⟩
  · rw [Bool.not_eq_true] at hx
    have hdistance : (actualRatio width height - x).abs.isNaN = false := by
      rw [Decimal.isNaN_abs, Decimal.isNaN_sub hactual, hx]
    rw [Decimal.not_le_iff hx hzero, gt_iff_lt,
      ← Decimal.not_le_iff hdistance (Decimal.isNaN_of_isFinite htolerance), not_not]
    constructor
    · rintro ⟨hpositive, hnear⟩
      refine .inr ⟨(Decimal.isFinite_or_isInf hx).resolve_right fun hinf => ?_, hpositive, hnear⟩
      -- from an infinity the dimensions are infinitely far away
      obtain ⟨sign, hinfinity⟩ := Decimal.exists_infinity_sub hactual hinf
      have hfar := Decimal.lt_infinity htolerance (Decimal.abs_infinity hinfinity)
      rw [← Decimal.not_le_iff hdistance (Decimal.isNaN_of_isFinite htolerance)] at hfar
      exact hfar hnear
    · rintro (hnan | ⟨-, hpositive, hnear⟩)
      · rw [hx] at hnan
        cases hnan
      · exact ⟨hpositive, hnear⟩

/-- A command is made for dimensions that were read, where what is declared
passes the checks. -/
theorem compile_eq_ok :
    aspectRatio.toFeature.compile c = .ok command ↔ ∃ ratio width height, Declares c ratio ∧
      dimension c "ASPECT_RATIO.WIDTH" = .ok width ∧
      dimension c "ASPECT_RATIO.HEIGHT" = .ok height ∧ command = scale width height ∧
      ¬ ratio ≤ 0.0 ∧ ¬ (actualRatio width height - ratio).abs > ratioTolerance := by
  change (parseRatio c >>= synthesizeRatio) = .ok command ↔ _
  simp only [bind_eq_ok, parseRatio_eq_ok, synthesizeRatio_eq_ok]
  constructor
  · rintro ⟨s, ⟨hratio, hpositive, hwidth, hheight⟩, hnear, hcommand⟩
    exact ⟨_, _, _, hratio, hwidth, hheight, hcommand, hpositive, hnear⟩
  · rintro ⟨ratio, width, height, hratio, hwidth, hheight, hcommand, hpositive, hnear⟩
    exact ⟨⟨ratio, width, height⟩, ⟨hratio, hpositive, hwidth, hheight⟩, hnear, hcommand⟩

/-- **Which ratios dimensions are accepted for.** The feature makes a command
exactly where both dimensions are natural numbers from one to `maxDimension`, and
the declared ratio is a finite number greater than zero that they match up to
the tolerance, or it comes from a text and is no number: one of the two numbers
in the text is none, or both are infinite. -/
theorem compile_aspectRatio_eq_ok (c : Configuration) (command : Command) :
    aspectRatio.toFeature.compile c = .ok command ↔ ∃ width height,
      (c.natural "ASPECT_RATIO.WIDTH" = .ok width ∧ 1 ≤ width ∧ width ≤ maxDimension) ∧
      (c.natural "ASPECT_RATIO.HEIGHT" = .ok height ∧ 1 ≤ height ∧ height ≤ maxDimension) ∧
      command = scale width height ∧
      ((∃ ratio, Declares c ratio ∧ ratio.isFinite = true ∧ 0.0 < ratio ∧
          (actualRatio width height - ratio).abs ≤ ratioTolerance) ∨
        ∃ text a b, c.value "ASPECT_RATIO" = .ok (.text text) ∧ operands? text = some (a, b) ∧
          (b != 0.0) = true ∧
          (a.isNaN = true ∨ b.isNaN = true ∨ a.isInf = true ∧ b.isInf = true)) := by
  simp only [← exists_isNaN_declares_iff, ← dimension_eq_ok, compile_eq_ok]
  constructor
  · rintro ⟨ratio, width, height, hratio, hwidth, hheight, hcommand, hpasses⟩
    refine ⟨width, height, hwidth, hheight, hcommand, ?_⟩
    rcases (passes_iff (dimension_eq_ok.mp hwidth).2 (dimension_eq_ok.mp hheight).2).mp hpasses
      with hnan | hmatch
    · exact .inr ⟨ratio, hratio, hnan⟩
    · exact .inl ⟨ratio, hratio, hmatch⟩
  · rintro ⟨width, height, hwidth, hheight, hcommand, hratio⟩
    have hpasses (x : Float) :=
      passes_iff (x := x) (dimension_eq_ok.mp hwidth).2 (dimension_eq_ok.mp hheight).2
    rcases hratio with ⟨ratio, hratio, hmatch⟩ | ⟨ratio, hratio, hnan⟩
    · have hpasses := (hpasses ratio).mpr (.inr hmatch)
      exact ⟨ratio, width, height, hratio, hwidth, hheight, hcommand, hpasses⟩
    · have hpasses := (hpasses ratio).mpr (.inl hnan)
      exact ⟨ratio, width, height, hratio, hwidth, hheight, hcommand, hpasses⟩

/-! ## A ratio that is no number -/

/-- Dimensions of a picture, for a ratio that is no number. -/
def unframed : Configuration :=
  ((Configuration.empty.set "ASPECT_RATIO" (.text "NaN:1")).set "ASPECT_RATIO.WIDTH"
    (.number 640)).set "ASPECT_RATIO.HEIGHT" (.number 480)

/-- **A text that names no number is accepted,** although what it declares is not
finite, not greater than zero, and nothing that the dimensions could match. -/
theorem not_matches_of_compile :
    aspectRatio.toFeature.compile unframed = .ok (scale 640 480) ∧
      ∀ ratio, Declares unframed ratio → ratio.isFinite = false ∧ ¬ 0.0 < ratio ∧
        ¬ (actualRatio 640 480 - ratio).abs ≤ ratioTolerance := by
  have hvalue : unframed.value "ASPECT_RATIO" = .ok (.text "NaN:1") := rfl
  have hoperands : operands? "NaN:1" = some (0.0 / 0.0, 1.0) := by decide +kernel
  have hone : ((1.0 : Float) != 0.0) = true := rfl
  constructor
  · have hdeclares : Declares unframed (0.0 / 0.0 / 1.0) := .text hvalue hoperands hone
    refine compile_eq_ok.mpr ⟨_, 640, 480, hdeclares, rfl, rfl, rfl, ?_⟩
    decide +kernel
  · intro ratio hratio
    cases hratio with
    | number hnumber hfinite =>
      rw [hvalue] at hnumber
      cases hnumber
    | text htext hpair hb =>
      rw [hvalue] at htext
      cases htext
      rw [hoperands] at hpair
      cases hpair
      decide +kernel

end Frame

end MediaPipeline
