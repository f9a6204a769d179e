import Mathlib.Algebra.Order.Field.Power
import Mathlib.Algebra.Order.Field.Rat
import Mathlib.Tactic.Linarith
import Mathlib.Tactic.Positivity
import MediaPipeline.Proofs.Decimal.Special
/-!
# Decimal/Exact — the rational number that a double is

A finite double is a rational number, without any rounding: that of its unpacked
form (`rational?`). The parts that are read off the bits are the same number
(`rational?_eq`). So what counts as a natural number is one exactly
(`natural?_eq_some`): neither a fraction, however small, nor anything less than
zero does, and a zero of either sign is zero.
-/


namespace MediaPipeline

namespace Decimal

open Float.Model Float.Model.UnpackedFloat

variable {x : Float} {m n : Nat} {q : Int}

/-! ## Exact values -/

/-- The rational number that the unpacked form of a double stands for. -/
def rationalOf? : UnpackedFloat → Option ℚ
  | .finite sign m e _ => some (sign.apply m * 2 ^ e)
  | .zero _ => some 0
  | .infinity _ => none
  | .notANumber => none

@[simp]
theorem rationalOf?_finite {s : Sign} {e : Int} (hm : 0 < m) :
    rationalOf? (.finite s m e hm) = some ((s.apply m : ℚ) * 2 ^ e) :=
  rfl

/-- The rational number that a double is, where it is finite. -/
def rational? (x : Float) : Option ℚ := rationalOf? x.toModel.unpack

/-- The rational number that the parts of a double stand for. -/
def Parts.rational? : Parts → Option ℚ
  | .finite negative m q => some ((if negative then -(m : ℚ) else m) * 2 ^ q)
  | .infinite _ => none
  | .notANumber => none

theorem toNat_unpackMantissa (b : BitVec 64) :
    (@unpackMantissa Format.binary64 b).toNat = b.toNat % 2 ^ 52 := by
  change ((b.extractLsb 51 0).cast _).toNat = _
  rw [BitVec.toNat_cast, BitVec.extractLsb_toNat, Nat.shiftRight_zero]

theorem toNat_unpackSign (b : BitVec 64) :
    (@unpackSign Format.binary64 b).toNat = b.toNat / 2 ^ 63 := by
  change ((b.extractLsb 63 63).cast _).toNat = _
  rw [BitVec.toNat_cast, BitVec.extractLsb_toNat, Nat.shiftRight_eq_div_pow]
  exact Nat.mod_eq_of_lt (by omega)

/-- The first bit is the sign. -/
theorem cast_apply_unpackSign (b : BitVec 64) (m : Nat) :
    (((Sign.ofBitVec (@unpackSign Format.binary64 b)).apply m : Int) : ℚ) =
      if decide (b.toNat / 2 ^ 63 = 1) then -(m : ℚ) else m := by
  rw [← toNat_unpackSign]
  rcases BitVec.eq_zero_or_eq_one (@unpackSign Format.binary64 b) with h | h
  · rw [h]
    exact Int.cast_natCast m
  · rw [h]
    exact (Int.cast_neg (m : Int)).trans (congrArg Neg.neg (Int.cast_natCast m))

/-- **What the bits of a double say is the number that it is.** The exponent
tells special values, subnormal numbers and normal ones apart. -/
theorem rationalOf?_unpack (b : BitVec 64) :
    rationalOf? (UnpackedFloat.unpack Format.binary64 b) = (partsOfBits b.toNat).rational? := by
  have hexponent := toNat_unpackExponent b
  have hmantissa := toNat_unpackMantissa b
  have hsmall : @unpackExponent Format.binary64 b = 0#_ ↔ b.toNat / 2 ^ 52 % 2 ^ 11 = 0 := by
    rw [← hexponent, ← BitVec.toNat_inj]
    rfl
  have hzero : @unpackMantissa Format.binary64 b = 0#_ ↔ b.toNat % 2 ^ 52 = 0 := by
    rw [← hmantissa, ← BitVec.toNat_inj]
    rfl
  unfold partsOfBits
  dsimp only [Nat.pow_eq]
  by_cases hspecial : b.toNat / 2 ^ 52 % 2 ^ 11 = 2047
  · rw [if_pos hspecial]
    rcases unpack_of_ones (unpackExponent_eq_ones.mpr hspecial) with ⟨s, hunpack⟩ | hunpack
    all_goals
      rw [hunpack]
      split_ifs <;> rfl
  rw [if_neg hspecial]
  by_cases hsubnormal : b.toNat / 2 ^ 52 % 2 ^ 11 = 0
  · rw [if_pos hsubnormal]
    by_cases hfraction : b.toNat % 2 ^ 52 = 0
    · rw [unpack_of_zero (hsmall.mpr hsubnormal) (hzero.mpr hfraction), hfraction]
      change some (0 : ℚ) = some ((if _ then -((0 : Nat) : ℚ) else (0 : Nat)) * _)
      rw [Nat.cast_zero, neg_zero, ite_self, zero_mul]
    · obtain ⟨hpos, hunpack⟩ :=
        exists_unpack_subnormal (hsmall.mpr hsubnormal) (mt hzero.mp hfraction)
      rw [hunpack, rationalOf?_finite, cast_apply_unpackSign, hmantissa]
      rfl
  · have hdigits := toNat_one_append (@unpackMantissa Format.binary64 b)
    obtain ⟨hpos, hunpack⟩ :=
      exists_unpack_normal (mt unpackExponent_eq_ones.mp hspecial) (mt hsmall.mp hsubnormal)
    rw [if_neg hsubnormal, hunpack, rationalOf?_finite, cast_apply_unpackSign, hdigits,
      hmantissa, hexponent]
    rfl

theorem rational?_eq (x : Float) : rational? x = (parts x).rational? :=
  rationalOf?_unpack x.toBits.toBitVec

theorem isFinite_of_rational? {v : ℚ} (h : rational? x = some v) : isFinite x = true := by
  rw [rational?_eq] at h
  unfold isFinite
  cases hparts : parts x <;> rw [hparts] at h <;> first | rfl | cases h

/-! ## Natural numbers -/

theorem den_ofBinary_pos (m : Nat) (q : Int) : 0 < (Ratio.ofBinary m q).den :=
  Nat.two_pow_pos _

theorem num_div_den_ofBinary (m : Nat) (q : Int) :
    ((Ratio.ofBinary m q).num : ℚ) / (Ratio.ofBinary m q).den = m * 2 ^ q := by
  have hq : (q.toNat : Int) - (-q).toNat = q := by omega
  unfold Ratio.ofBinary
  rw [Nat.pow_eq, Nat.pow_eq]
  push_cast
  rw [mul_div_assoc, ← zpow_natCast, ← zpow_natCast, ← zpow_sub₀ two_ne_zero, hq]

/-- A fraction is a natural number where its division leaves no remainder. -/
theorem ofBinary_eq_natCast :
    (m : ℚ) * 2 ^ q = n ↔
      (Ratio.ofBinary m q).num % (Ratio.ofBinary m q).den = 0 ∧
        (Ratio.ofBinary m q).num / (Ratio.ofBinary m q).den = n := by
  have hden := den_ofBinary_pos m q
  rw [← num_div_den_ofBinary, div_eq_iff (by exact_mod_cast hden.ne')]
  norm_cast
  generalize (Ratio.ofBinary m q).num = a
  generalize (Ratio.ofBinary m q).den = b at hden
  constructor
  · rintro rfl
    exact ⟨Nat.mul_mod_left n b, Nat.mul_div_cancel n hden⟩
  · rintro ⟨hmod, rfl⟩
    exact (Nat.div_mul_cancel (Nat.dvd_of_mod_eq_zero hmod)).symm

/-- **What counts as a natural number is one exactly.** -/
theorem natural?_eq_some : natural? x = some n ↔ rational? x = some (n : ℚ) := by
  rw [rational?_eq]
  unfold natural?
  cases parts x with
  | infinite negative => simp [Parts.rational?]
  | notANumber => simp [Parts.rational?]
  | finite negative m q =>
    simp only [Parts.rational?, Option.some.injEq]
    by_cases hm : m = 0
    · simp [hm, eq_comm]
    rw [if_neg hm]
    cases negative with
    | true =>
      have hpositive : (0 : ℚ) < m * 2 ^ q := by positivity
      have hn : (0 : ℚ) ≤ n := Nat.cast_nonneg n
      have hnegative : -((m : ℚ) * 2 ^ q) < n := by linarith
      simp [hnegative.ne]
    | false => simp [ofBinary_eq_natCast]

end Decimal

end MediaPipeline
