import Mathlib.Tactic.NormNum
import Mathlib.Tactic.SplitIfs
import MediaPipeline.Decimal.Binary
/-!
# Decimal/Special — infinities and what is no number

A double is finite, infinite, or no number at all, and arithmetic leads from one
kind to another. What matters here is when a result is no number
(`isNaN_sub`, `isNaN_div`), for such a result passes every check that is written
as the denial of a comparison: of two numbers one is at most the other or
greater (`not_le_iff`), but nothing compares with what is no number
(`not_le_of_isNaN`).

Operations take doubles apart, work on the parts, and pack the result into bits
again; packing may turn a result that is too large into an infinity, but never
into no number (`isNaN_pack`).
-/


namespace MediaPipeline

namespace Decimal

open Float.Model Float.Model.UnpackedFloat

variable {x y : Float} {f g : UnpackedFloat} {b : BitVec 64}

theorem finite_congr {s t : Sign} {m n : Nat} {e k : Int} {hm : 0 < m}
    (hsign : s = t) (hmantissa : m = n) (hexponent : e = k) :
    UnpackedFloat.finite s m e hm = .finite t n k (hmantissa ▸ hm) := by
  subst hsign hmantissa hexponent
  rfl

/-! ## Unpacking and packing -/

theorem unpack_pack_infinity (s : Sign) :
    (Float.Model.pack (.infinity s)).unpack = .infinity s := by
  cases s <;> rfl

/-- All bits of the exponent are set for what is not finite. -/
theorem unpack_of_ones (hones : @unpackExponent Format.binary64 b = -1#11) :
    (∃ s, UnpackedFloat.unpack Format.binary64 b = .infinity s) ∨
      UnpackedFloat.unpack Format.binary64 b = .notANumber := by
  unfold UnpackedFloat.unpack
  dsimp only
  rw [if_pos hones]
  by_cases hmantissa : @unpackMantissa Format.binary64 b = 0#52
  · rw [if_pos hmantissa]
    exact .inl ⟨_, rfl⟩
  · rw [if_neg hmantissa]
    exact .inr rfl

theorem unpackExponent_ne_ones (hzero : @unpackExponent Format.binary64 b = 0#11) :
    @unpackExponent Format.binary64 b ≠ -1#11 := by
  rw [hzero]
  decide

/-- No bit of the exponent is set for a zero and for subnormal numbers. -/
theorem unpack_of_zero (hzero : @unpackExponent Format.binary64 b = 0#11)
    (hmantissa : @unpackMantissa Format.binary64 b = 0#52) :
    UnpackedFloat.unpack Format.binary64 b =
      .zero (Sign.ofBitVec (@unpackSign Format.binary64 b)) := by
  unfold UnpackedFloat.unpack
  dsimp only
  rw [if_neg (unpackExponent_ne_ones hzero), if_pos hzero, dif_pos hmantissa]

/-- A subnormal number has no digits but those that its bits give. -/
theorem exists_unpack_subnormal (hzero : @unpackExponent Format.binary64 b = 0#11)
    (hmantissa : @unpackMantissa Format.binary64 b ≠ 0#52) :
    ∃ hpos : 0 < (@unpackMantissa Format.binary64 b).toNat,
      UnpackedFloat.unpack Format.binary64 b =
        .finite (Sign.ofBitVec (@unpackSign Format.binary64 b))
          (@unpackMantissa Format.binary64 b).toNat (-1074) hpos := by
  have hpos : 0 < (@unpackMantissa Format.binary64 b).toNat :=
    Nat.pos_of_ne_zero fun h => hmantissa (BitVec.eq_of_toNat_eq h)
  unfold UnpackedFloat.unpack
  dsimp only
  rw [if_neg (unpackExponent_ne_ones hzero), if_pos hzero, dif_neg hmantissa]
  refine ⟨hpos, finite_congr rfl rfl ?_⟩
  rw [hzero]
  rfl

/-- The first digit of a normal number stands before the digits that its bits
give. -/
theorem toNat_one_append (v : BitVec 52) : (1#1 ++ v).toNat = 2 ^ 52 + v.toNat := by
  rw [BitVec.toNat_append, ← Nat.shiftLeft_add_eq_or_of_lt v.isLt]
  rfl

/-- Any other exponent is that of a normal number. -/
theorem exists_unpack_normal (hones : @unpackExponent Format.binary64 b ≠ -1#11)
    (hzero : @unpackExponent Format.binary64 b ≠ 0#11) :
    ∃ hpos : 0 < (1#1 ++ @unpackMantissa Format.binary64 b).toNat,
      UnpackedFloat.unpack Format.binary64 b =
        .finite (Sign.ofBitVec (@unpackSign Format.binary64 b))
          (1#1 ++ @unpackMantissa Format.binary64 b).toNat
          ((@unpackExponent Format.binary64 b).toNat - 1075) hpos := by
  have hpos : 0 < (1#1 ++ @unpackMantissa Format.binary64 b).toNat := by
    rw [toNat_one_append]
    omega
  unfold UnpackedFloat.unpack
  dsimp only
  rw [if_neg hones, if_neg hzero]
  exact ⟨hpos, rfl⟩

theorem isFinite_unpack (b : BitVec 64) :
    (UnpackedFloat.unpack Format.binary64 b).isFinite =
      decide (@unpackExponent Format.binary64 b ≠ -1#11) := by
  by_cases hones : @unpackExponent Format.binary64 b = -1#11
  · rw [decide_eq_false (not_not_intro hones)]
    rcases unpack_of_ones hones with ⟨s, hspecial⟩ | hspecial <;> rw [hspecial] <;> rfl
  rw [decide_eq_true hones]
  by_cases hzero : @unpackExponent Format.binary64 b = 0#11
  · by_cases hmantissa : @unpackMantissa Format.binary64 b = 0#52
    · rw [unpack_of_zero hzero hmantissa]
      rfl
    · obtain ⟨_, hfinite⟩ := exists_unpack_subnormal hzero hmantissa
      rw [hfinite]
      rfl
  · obtain ⟨_, hfinite⟩ := exists_unpack_normal hones hzero
    rw [hfinite]
    rfl

/-- What is finite is a number. -/
theorem isNaN_unpacked_of_isFinite (hf : f.isFinite = true) : f.isNaN = false := by
  cases f with
  | notANumber => cases hf
  | _ => rfl

theorem isNaN_unpack_packComponents (s : Sign) {exponent : BitVec 11} (mantissa : BitVec 52)
    (h : exponent ≠ -1#11) :
    (UnpackedFloat.unpack Format.binary64
      (packComponents Format.binary64 s exponent mantissa)).isNaN = false := by
  apply isNaN_unpacked_of_isFinite
  rw [isFinite_unpack, unpackExponent_packComponents]
  exact decide_eq_true h

/-- **Packing keeps what is a number a number,** and nothing else. -/
theorem isNaN_pack (f : UnpackedFloat) : (Float.Model.pack f).isNaN = f.isNaN := by
  cases f with
  | notANumber => rfl
  | infinity s => cases s <;> rfl
  | zero s => cases s <;> rfl
  | finite s m e hm =>
    change (UnpackedFloat.unpack Format.binary64
      (UnpackedFloat.pack Format.binary64 _)).isNaN = false
    unfold UnpackedFloat.pack
    dsimp only
    split
    · cases s <;> rfl
    · split
      · refine isNaN_unpack_packComponents s _ fun h => ?_
        have hexponent := congrArg BitVec.toNat h
        simp at hexponent
        omega
      · exact isNaN_unpack_packComponents s _ (by decide)

theorem toNat_unpackExponent (b : BitVec 64) :
    (@unpackExponent Format.binary64 b).toNat = b.toNat / 2 ^ 52 % 2 ^ 11 := by
  change ((b.extractLsb 62 52).cast _).toNat = _
  rw [BitVec.toNat_cast, BitVec.extractLsb_toNat, Nat.shiftRight_eq_div_pow]

/-- All bits of the exponent are set for an infinity and for what is no number. -/
theorem unpackExponent_eq_ones :
    @unpackExponent Format.binary64 b = -1#_ ↔ b.toNat / 2 ^ 52 % 2 ^ 11 = 2047 := by
  rw [← toNat_unpackExponent, ← BitVec.toNat_inj]
  rfl

/-- What is finite by its parts is finite. -/
theorem isFinite_eq (x : Float) : isFinite x = x.isFinite := by
  change isFinite x =
    (UnpackedFloat.unpack Format.binary64 x.toBits.toBitVec).isFinite
  rw [isFinite_unpack, decide_eq_decide.mpr (not_congr unpackExponent_eq_ones)]
  unfold isFinite parts
  change _ = decide (x.toBits.toNat / 2 ^ 52 % 2 ^ 11 ≠ 2047)
  generalize x.toBits.toNat = bits
  unfold partsOfBits
  dsimp only [Nat.pow_eq]
  by_cases h : bits / 2 ^ 52 % 2 ^ 11 = 2047
  · rw [if_pos h, decide_eq_false (not_not_intro h)]
    split_ifs <;> rfl
  · rw [if_neg h, decide_eq_true h]
    split_ifs <;> rfl

/-! ## Kinds of doubles -/

theorem isNaN_of_isFinite (hx : x.isFinite = true) : x.isNaN = false :=
  isNaN_unpacked_of_isFinite hx

/-- A double that is no number is neither finite nor infinite, and any other one
is either. -/
theorem isFinite_or_isInf (hx : x.isNaN = false) : x.isFinite = true ∨ x.isInf = true := by
  change x.toModel.unpack.isFinite = true ∨ x.toModel.unpack.isInf = true
  change x.toModel.unpack.isNaN = false at hx
  cases hf : x.toModel.unpack with
  | notANumber =>
    rw [hf] at hx
    cases hx
  | infinity s => exact .inr rfl
  | zero s => exact .inl rfl
  | finite s m e hm => exact .inl rfl

/-! ## Arithmetic -/

theorem isNaN_dite {c : Prop} [Decidable c] {a : c → UnpackedFloat} {b : ¬c → UnpackedFloat}
    (ha : ∀ h, (a h).isNaN = false) (hb : ∀ h, (b h).isNaN = false) :
    (dite c a b).isNaN = false := by
  by_cases h : c
  · rw [dif_pos h]
    exact ha h
  · rw [dif_neg h]
    exact hb h

/-- Rounding gives a zero or a finite number. -/
theorem isNaN_roundWithAccuracy (s : Sign) (m : Nat) (e : Int) (a : Accuracy) :
    (roundWithAccuracy Format.binary64 s m e a).isNaN = false := by
  unfold roundWithAccuracy
  exact isNaN_dite (fun _ => rfl) fun _ => rfl

theorem isNaN_normalize (m e : Int) (s : Sign) :
    (UnpackedFloat.normalize Format.binary64 m e s).isNaN = false := by
  unfold UnpackedFloat.normalize
  split
  · exact isNaN_roundWithAccuracy _ _ _ _
  · rfl
  · exact isNaN_roundWithAccuracy _ _ _ _

/-- **A finite number less another double** is a number where that one is. -/
theorem isNaN_sub (hx : x.isFinite = true) : (x - y).isNaN = y.isNaN := by
  change (Float.Model.pack (UnpackedFloat.sub _ x.toModel.unpack y.toModel.unpack)).isNaN =
    y.toModel.unpack.isNaN
  rw [isNaN_pack]
  change x.toModel.unpack.isFinite = true at hx
  generalize x.toModel.unpack = f at hx
  generalize y.toModel.unpack = g
  cases f with
  | notANumber => cases hx
  | infinity s => cases hx
  | zero s =>
    cases g with
    | zero t => cases s <;> cases t <;> rfl
    | _ => rfl
  | finite s m e hm =>
    cases g with
    | finite t n k hn => exact isNaN_normalize _ _ _
    | _ => rfl

/-- A finite number less an infinity is an infinity. -/
theorem exists_infinity_sub (hx : x.isFinite = true) (hy : y.isInf = true) :
    ∃ s, (x - y).toModel.unpack = .infinity s := by
  change ∃ s, (Float.Model.pack
    (UnpackedFloat.sub Format.binary64 x.toModel.unpack y.toModel.unpack)).unpack = .infinity s
  change x.toModel.unpack.isFinite = true at hx
  change y.toModel.unpack.isInf = true at hy
  generalize x.toModel.unpack = f at hx
  generalize y.toModel.unpack = g at hy
  cases g with
  | notANumber => cases hy
  | zero t => cases hy
  | finite t n k hn => cases hy
  | infinity t =>
    refine ⟨-t, ?_⟩
    cases f with
    | notANumber => cases hx
    | infinity s => cases hx
    | zero s => exact unpack_pack_infinity (-t)
    | finite s m e hm => exact unpack_pack_infinity (-t)

theorem isNaN_abs : x.abs.isNaN = x.isNaN := by
  change (Float.Model.pack x.toModel.unpack.abs).isNaN = x.toModel.unpack.isNaN
  rw [isNaN_pack]
  cases x.toModel.unpack <;> rfl

theorem abs_infinity {s : Sign} (hx : x.toModel.unpack = .infinity s) :
    x.abs.toModel.unpack = .infinity .positive := by
  change (Float.Model.pack x.toModel.unpack.abs).unpack = _
  rw [hx]
  exact unpack_pack_infinity .positive

/-- A quotient is no number by the kinds of the two numbers alone, where the
divisor is not zero. -/
theorem isNaN_div_unpacked (hg : ∀ s, g ≠ .zero s) :
    (UnpackedFloat.div Format.binary64 f g).isNaN =
      (f.isNaN || (g.isNaN || (f.isInf && g.isInf))) := by
  cases g with
  | zero t => exact absurd rfl (hg t)
  | notANumber => cases f <;> rfl
  | infinity t => cases f <;> rfl
  | finite t n k hn =>
    cases f with
    | finite s m e hm => exact isNaN_roundWithAccuracy _ _ _ _
    | _ => rfl

/-- **A quotient is no number** where one of the two is none, or both are
infinite; the divisor is not zero. -/
theorem isNaN_div (hy : (y != 0.0) = true) :
    (x / y).isNaN = true ↔
      x.isNaN = true ∨ y.isNaN = true ∨ x.isInf = true ∧ y.isInf = true := by
  change (Float.Model.pack (UnpackedFloat.div _ x.toModel.unpack y.toModel.unpack)).isNaN = true ↔
    x.toModel.unpack.isNaN = true ∨ y.toModel.unpack.isNaN = true ∨
      x.toModel.unpack.isInf = true ∧ y.toModel.unpack.isInf = true
  have hg : ∀ s, y.toModel.unpack ≠ .zero s := by
    intro s hs
    change (!(y.toModel.unpack.compare (0.0 : Float).toModel.unpack == some .eq)) = true at hy
    rw [hs] at hy
    cases hy
  rw [isNaN_pack, isNaN_div_unpacked hg, Bool.or_eq_true, Bool.or_eq_true, Bool.and_eq_true]

/-! ## Comparison -/

theorem then_compare_swap (m n : Nat) (e k : Int) :
    ((compare e k).then (compare m n)).swap = (compare k e).then (compare n m) := by
  rw [Ordering.swap_then, ← Std.OrientedCmp.eq_swap, ← Std.OrientedCmp.eq_swap]

/-- Comparing the other way round gives the opposite. -/
theorem compare_swap (f g : UnpackedFloat) : (f.compare g).map Ordering.swap = g.compare f := by
  cases f with
  | notANumber => cases g <;> rfl
  | infinity s =>
    cases g with
    | infinity t => cases s <;> cases t <;> rfl
    | _ => cases s <;> rfl
  | zero s =>
    cases g with
    | notANumber => rfl
    | zero t => rfl
    | infinity t => cases t <;> rfl
    | finite t n k hn => cases t <;> rfl
  | finite s m e hm =>
    cases g with
    | notANumber => rfl
    | zero t => cases s <;> rfl
    | infinity t => cases t <;> rfl
    | finite t n k hn =>
      -- numbers of one sign compare by their exponents and then by their mantissas
      cases s with
      | negative =>
        cases t with
        | negative => exact congrArg (fun o => some o.swap) (then_compare_swap m n e k)
        | positive => rfl
      | positive =>
        cases t with
        | negative => rfl
        | positive => exact congrArg some (then_compare_swap m n e k)

theorem exists_compare (hf : f.isNaN = false) (hg : g.isNaN = false) :
    ∃ o, f.compare g = some o := by
  unfold UnpackedFloat.compare
  split <;> first | exact ⟨_, rfl⟩ | cases hf | cases hg

theorem compare_eq_none (h : f.isNaN = true ∨ g.isNaN = true) : f.compare g = none := by
  cases f <;> cases g <;> first | rfl | (rcases h with h | h <;> cases h)

theorem le_iff : x ≤ y ↔ x.toModel.unpack.le y.toModel.unpack = true := by
  change decide _ = true ↔ _
  rw [decide_eq_true_iff]
  rfl

theorem lt_iff : x < y ↔ x.toModel.unpack.lt y.toModel.unpack = true := by
  change decide _ = true ↔ _
  rw [decide_eq_true_iff]
  rfl

/-- **Of two numbers one is at most the other, or greater.** -/
theorem not_le_iff (hx : x.isNaN = false) (hy : y.isNaN = false) : ¬ x ≤ y ↔ y < x := by
  rw [le_iff, lt_iff, UnpackedFloat.le, UnpackedFloat.lt]
  obtain ⟨o, ho⟩ := exists_compare hx hy
  rw [← compare_swap x.toModel.unpack, ho]
  cases o <;> decide

/-- **Nothing compares with what is no number.** -/
theorem not_le_of_isNaN (h : x.isNaN = true ∨ y.isNaN = true) : ¬ x ≤ y := by
  rw [le_iff, UnpackedFloat.le, compare_eq_none h]
  decide

theorem not_lt_of_isNaN (h : x.isNaN = true ∨ y.isNaN = true) : ¬ x < y := by
  rw [lt_iff, UnpackedFloat.lt, compare_eq_none h]
  decide

/-- What is finite is less than infinity. -/
theorem lt_infinity (hx : x.isFinite = true) (hy : y.toModel.unpack = .infinity .positive) :
    x < y := by
  rw [lt_iff, hy]
  change x.toModel.unpack.isFinite = true at hx
  cases hf : x.toModel.unpack <;> rw [hf] at hx <;> first | rfl | cases hx

end Decimal

end MediaPipeline
