import Mathlib.Tactic.NormNum
import MediaPipeline.Proofs.Decimal.Special
/-!
# Decimal/Magnitude — quotients of natural numbers are finite

How large a result is, up to rounding, is told by the place of its first binary
digit (`Leading`). Rounding leaves the first digit where it is or moves it up by
one place (`exists_leading_round`), so the place in a product is about the sum
of the places in its factors, and the place in a quotient about their difference.
Between the places of the least and the greatest normal double nothing is lost
in packing (`unpack_pack_leading`). So a quotient of two natural numbers is
finite (`isFinite_div_ofNat`), for its first digit stands nowhere near either
end.
-/


namespace MediaPipeline

namespace Decimal

open Float.Model Float.Model.UnpackedFloat

variable {f g : UnpackedFloat} {s t : Int} {m n k : Nat}

/-! ## The place of the first digit -/

/-- A positive number of full precision, with fifty-three binary digits, the
first of which stands at the place `t`: the number is at least `2 ^ (t - 1)` and
less than `2 ^ t`. -/
def Leading (f : UnpackedFloat) (t : Int) : Prop :=
  ∃ m hm, f = .finite .positive m (t - 53) hm ∧ 2 ^ 52 ≤ m ∧ m < 2 ^ 53

theorem totalExponent_eq (hlo : 2 ^ (52 + k) ≤ m) (hhi : m < 2 ^ (53 + k)) :
    totalExponent m (t - 53 - k) = t := by
  have hpos : m ≠ 0 := (Nat.lt_of_lt_of_le (Nat.two_pow_pos _) hlo).ne'
  have hplaces : 52 + k + 1 = 53 + k := by omega
  have hlog : m.log2 = 52 + k := (Nat.log2_eq_iff hpos).mpr ⟨hlo, hplaces ▸ hhi⟩
  rw [totalExponent, hlog]
  omega

theorem targetExponent_eq (ht : -1021 ≤ t) : Format.binary64.targetExponent t = t - 53 := by
  change max (t - (1 + 52 : Nat)) (3 - 2 ^ 10 - (1 + 52 : Nat)) = t - 53
  omega

/-! ## Rounding -/

theorem mantissa_shiftRight (em : ExtendedMantissa) (n : Nat) :
    (em >>> n).mantissa = em.mantissa / 2 ^ n := by
  change (n.repeat ExtendedMantissa.shiftRightOne em).mantissa = _
  induction n with
  | zero => simp [Nat.repeat]
  | succ n ih =>
    change (n.repeat ExtendedMantissa.shiftRightOne em).mantissa / 2 = _
    rw [ih, Nat.div_div_eq_div_mul, ← Nat.pow_succ]

theorem mantissa_ofMantissaAndAccuracy (m : Nat) (a : Accuracy) :
    (ExtendedMantissa.ofMantissaAndAccuracy m a).mantissa = m := by
  unfold ExtendedMantissa.ofMantissaAndAccuracy
  split <;> rfl

theorem roundedMantissa_bounds (em : ExtendedMantissa) :
    em.mantissa ≤ em.roundedMantissa ∧ em.roundedMantissa ≤ em.mantissa + 1 := by
  unfold ExtendedMantissa.roundedMantissa Accuracy.roundToNearestEven
  split <;> omega

/-- Digits behind the fifty-third are shifted out. -/
theorem shiftToTargetExponent_eq (a : Accuracy) (hlo : 2 ^ (52 + k) ≤ m) (hhi : m < 2 ^ (53 + k))
    (ht : -1021 ≤ t) :
    (shiftToTargetExponent Format.binary64 m (t - 53 - k) a).1.mantissa = m / 2 ^ k ∧
      (shiftToTargetExponent Format.binary64 m (t - 53 - k) a).2 = t - 53 := by
  have hshift : (t - 53 - (t - 53 - (k : Int))).toNat = k := by omega
  unfold shiftToTargetExponent shiftToExponent
  rw [totalExponent_eq hlo hhi, targetExponent_eq ht]
  dsimp only
  rw [hshift, mantissa_shiftRight, mantissa_ofMantissaAndAccuracy]
  exact ⟨rfl, by omega⟩

theorem div_two_pow_bounds (hlo : 2 ^ (52 + k) ≤ m) (hhi : m < 2 ^ (53 + k)) :
    2 ^ 52 ≤ m / 2 ^ k ∧ m / 2 ^ k < 2 ^ 53 := by
  rw [Nat.le_div_iff_mul_le (Nat.two_pow_pos k), Nat.div_lt_iff_lt_mul (Nat.two_pow_pos k),
    ← Nat.pow_add, ← Nat.pow_add]
  exact ⟨hlo, hhi⟩

/-- **Rounding moves the first digit up by one place at most.** -/
theorem exists_leading_round (a : Accuracy) (hlo : 2 ^ (52 + k) ≤ m) (hhi : m < 2 ^ (53 + k))
    (ht : -1021 ≤ t) :
    ∃ u, (u = t ∨ u = t + 1) ∧
      Leading (roundWithAccuracy Format.binary64 .positive m (t - 53 - k) a) u := by
  obtain ⟨hmantissa, hexponent⟩ := shiftToTargetExponent_eq a hlo hhi ht
  obtain ⟨hbelow, habove⟩ :=
    roundedMantissa_bounds (shiftToTargetExponent Format.binary64 m (t - 53 - k) a).1
  obtain ⟨hdivlo, hdivhi⟩ := div_two_pow_bounds hlo hhi
  rw [hmantissa] at hbelow habove
  unfold roundWithAccuracy
  dsimp only
  rw [hexponent]
  generalize (shiftToTargetExponent Format.binary64 m (t - 53 - k) a).1.roundedMantissa = r at *
  -- rounding up may have made one digit more, and then the last one is shifted out
  obtain ⟨j, u, hu, hplace, hrlo, hrhi⟩ : ∃ j : Nat, ∃ u, (u = t ∨ u = t + 1) ∧
      t - 53 = u - 53 - j ∧ 2 ^ (52 + j) ≤ r ∧ r < 2 ^ (53 + j) := by
    rcases Nat.lt_or_ge r (2 ^ 53) with hr | hr
    · exact ⟨0, t, .inl rfl, by omega, by omega, by omega⟩
    · exact ⟨1, t + 1, .inr rfl, by omega, by omega, by omega⟩
  obtain ⟨hfinal, hend⟩ := shiftToTargetExponent_eq .exact hrlo hrhi (by omega : -1021 ≤ u)
  have hbounds := div_two_pow_bounds hrlo hrhi
  rw [← hfinal] at hbounds
  rw [hplace, hend]
  refine ⟨u, hu, _, ?_, dif_neg ?_, hbounds⟩ <;> omega

/-! ## Operations -/

theorem exists_leading_mul (hf : Leading f s) (hg : Leading g t) (hst : -1020 ≤ s + t) :
    ∃ u, s + t - 1 ≤ u ∧ u ≤ s + t + 1 ∧
      Leading (UnpackedFloat.mul Format.binary64 f g) u := by
  obtain ⟨m, hm, rfl, hmlo, hmhi⟩ := hf
  obtain ⟨n, hn, rfl, hnlo, hnhi⟩ := hg
  change ∃ u, _ ∧ _ ∧ Leading (roundWithAccuracy Format.binary64 .positive (m * n) _ .exact) u
  have hlo : 2 ^ 104 ≤ m * n := by
    calc 2 ^ 104 = 2 ^ 52 * 2 ^ 52 := by norm_num
      _ ≤ m * n := Nat.mul_le_mul hmlo hnlo
  have hhi : m * n < 2 ^ 106 := by
    calc m * n < 2 ^ 53 * 2 ^ 53 := Nat.mul_lt_mul'' hmhi hnhi
      _ = 2 ^ 106 := by norm_num
  -- the product of two numbers with 53 digits has 105 or 106
  obtain ⟨k, u, hu, hplace, hklo, hkhi⟩ : ∃ k : Nat, ∃ u, (u = s + t - 1 ∨ u = s + t) ∧
      s - 53 + (t - 53) = u - 53 - k ∧ 2 ^ (52 + k) ≤ m * n ∧ m * n < 2 ^ (53 + k) := by
    rcases Nat.lt_or_ge (m * n) (2 ^ 105) with hmn | hmn
    · exact ⟨52, s + t - 1, .inl rfl, by omega, hlo, hmn⟩
    · exact ⟨53, s + t, .inr rfl, by omega, hmn, hhi⟩
  rw [hplace]
  obtain ⟨v, hv, hleading⟩ := exists_leading_round (t := u) .exact hklo hkhi (by omega)
  exact ⟨v, by omega, by omega, hleading⟩

theorem divCore_eq (hmlo : 2 ^ 52 ≤ m) (hmhi : m < 2 ^ 53) (hnlo : 2 ^ 52 ≤ n) (hnhi : n < 2 ^ 53)
    (hst : -1021 ≤ s - t) :
    divCore Format.binary64 m (s - 53) n (t - 53) =
      (m * 2 ^ 53 / n, s - t - 53, accuracyOfFraction (m * 2 ^ 53 % n) n) := by
  have hm : totalExponent m (s - 53) = s := by
    have h := totalExponent_eq (k := 0) (t := s) hmlo hmhi
    rwa [Nat.cast_zero, Int.sub_zero] at h
  have hn : totalExponent n (t - 53) = t := by
    have h := totalExponent_eq (k := 0) (t := t) hnlo hnhi
    rwa [Nat.cast_zero, Int.sub_zero] at h
  have hmin : min (s - 53 - (t - 53)) (s - t - 53) = s - t - 53 := by omega
  have hshift : (s - 53 - (t - 53) - (s - t - 53)).toNat = 53 := by omega
  unfold divCore
  rw [hm, hn, targetExponent_eq hst]
  dsimp only
  rw [hmin, hshift, Nat.shiftLeft_eq]

theorem exists_leading_div (hf : Leading f s) (hg : Leading g t) (hst : -1021 ≤ s - t) :
    ∃ u, s - t ≤ u ∧ u ≤ s - t + 2 ∧ Leading (UnpackedFloat.div Format.binary64 f g) u := by
  obtain ⟨m, hm, rfl, hmlo, hmhi⟩ := hf
  obtain ⟨n, hn, rfl, hnlo, hnhi⟩ := hg
  unfold UnpackedFloat.div
  dsimp only
  rw [divCore_eq hmlo hmhi hnlo hnhi hst]
  dsimp only
  have hlo : 2 ^ 52 ≤ m * 2 ^ 53 / n := by
    rw [Nat.le_div_iff_mul_le hn]
    omega
  have hhi : m * 2 ^ 53 / n < 2 ^ 54 := by
    rw [Nat.div_lt_iff_lt_mul hn]
    omega
  obtain ⟨k, u, hu, hplace, hklo, hkhi⟩ : ∃ k : Nat, ∃ u, (u = s - t ∨ u = s - t + 1) ∧
      s - t - 53 = u - 53 - k ∧ 2 ^ (52 + k) ≤ m * 2 ^ 53 / n ∧
        m * 2 ^ 53 / n < 2 ^ (53 + k) := by
    rcases Nat.lt_or_ge (m * 2 ^ 53 / n) (2 ^ 53) with hq | hq
    · exact ⟨0, s - t, .inl rfl, by omega, hlo, hq⟩
    · exact ⟨1, s - t + 1, .inr rfl, by omega, hq, hhi⟩
  rw [hplace]
  obtain ⟨v, hv, hleading⟩ :=
    exists_leading_round (t := u) (accuracyOfFraction (m * 2 ^ 53 % n) n) hklo hkhi (by omega)
  exact ⟨v, by omega, by omega, hleading⟩

/-- A natural number is filled up with zeros behind its digits. -/
theorem exists_leading_ofNat (hpos : 0 < n) (hn : n < 2 ^ 53) :
    ∃ u, (n.log2 : Int) + 1 ≤ u ∧ u ≤ n.log2 + 2 ∧
      Leading (UnpackedFloat.ofNat Format.binary64 n) u := by
  have hlog : n.log2 < 53 := (Nat.log2_lt hpos.ne').mpr hn
  have hround : UnpackedFloat.ofNat Format.binary64 n =
      UnpackedFloat.round Format.binary64 .positive n 0 := by
    unfold UnpackedFloat.ofNat UnpackedFloat.ofInt UnpackedFloat.normalize
    rw [Int.compare_eq_gt.mpr (by omega)]
    rfl
  have htarget : Format.binary64.targetExponent (totalExponent n 0) = (n.log2 : Int) - 52 := by
    rw [targetExponent_eq] <;> unfold totalExponent <;> omega
  have hshift : (0 - ((n.log2 : Int) - 52)).toNat = 52 - n.log2 := by omega
  have hplace : (0 : Int) - ((52 - n.log2 : Nat) : Int) = (n.log2 : Int) + 1 - 53 - (0 : Nat) := by
    omega
  rw [hround]
  unfold UnpackedFloat.round decreaseExponent
  dsimp only
  rw [htarget, hshift, Nat.shiftLeft_eq, hplace]
  have hlo : 2 ^ (52 + 0) ≤ n * 2 ^ (52 - n.log2) := by
    calc 2 ^ (52 + 0) = 2 ^ n.log2 * 2 ^ (52 - n.log2) := by
          rw [← Nat.pow_add]
          congr 1
          omega
      _ ≤ n * 2 ^ (52 - n.log2) := Nat.mul_le_mul_right _ (Nat.log2_self_le hpos.ne')
  have hhi : n * 2 ^ (52 - n.log2) < 2 ^ (53 + 0) := by
    calc n * 2 ^ (52 - n.log2) < 2 ^ (n.log2 + 1) * 2 ^ (52 - n.log2) :=
          Nat.mul_lt_mul_of_pos_right Nat.lt_log2_self (Nat.two_pow_pos _)
      _ = 2 ^ (53 + 0) := by
          rw [← Nat.pow_add]
          congr 1
          omega
  obtain ⟨u, hu, hleading⟩ :=
    exists_leading_round (t := (n.log2 : Int) + 1) .exact hlo hhi (by omega)
  exact ⟨u, by omega, by omega, hleading⟩

/-! ## Packing -/

theorem unpackSign_packComponents (sign : Sign) (exponent : BitVec 11) (mantissa : BitVec 52) :
    unpackSign (packComponents Format.binary64 sign exponent mantissa) = sign.toBitVec := by
  change (sign.toBitVec ++ exponent ++ mantissa).extractLsb' 63 1 = sign.toBitVec
  rw [BitVec.extractLsb'_append_eq_of_le (by decide),
    BitVec.extractLsb'_append_eq_of_le (by decide)]
  cases sign <;> rfl

/-- **Packing loses nothing** of a number whose first digit stands between the
places of the least and the greatest normal double. -/
theorem unpack_pack_leading (hf : Leading f t) (hlo : -1021 ≤ t) (hhi : t ≤ 1024) :
    (Float.Model.pack f).unpack = f := by
  obtain ⟨m, hm, rfl, hmlo, hmhi⟩ := hf
  have hlog : m.log2 = 52 := (Nat.log2_eq_iff hm.ne').mpr ⟨hmlo, hmhi⟩
  have hbiased : (t - 53 + (1023 : Nat) + (52 : Nat)).toNat = (t + 1022).toNat := by omega
  have hpack : UnpackedFloat.pack Format.binary64 (.finite .positive m (t - 53) hm) =
      packComponents Format.binary64 .positive (BitVec.ofNat 11 (t + 1022).toNat)
        (BitVec.ofNat 52 m) := by
    unfold UnpackedFloat.pack
    change (if 2 ^ 11 ≤ (t - 53 + (1023 : Nat) + (52 : Nat)).toNat + 1 then _
      else if m.log2 + 1 = 53 then _ else _) = _
    rw [if_neg (by omega), if_pos (by omega), ← hbiased]
    rfl
  have hexponent : (BitVec.ofNat 11 (t + 1022).toNat).toNat = (t + 1022).toNat := by
    rw [BitVec.toNat_ofNat]
    omega
  -- the exponent is neither of the two that stand for special values and subnormal numbers
  have hones : BitVec.ofNat 11 (t + 1022).toNat ≠ -1#11 := by
    intro h
    have h := congrArg BitVec.toNat h
    rw [hexponent] at h
    change (t + 1022).toNat = 2047 at h
    omega
  have hzero : BitVec.ofNat 11 (t + 1022).toNat ≠ 0#11 := by
    intro h
    have h := congrArg BitVec.toNat h
    rw [hexponent] at h
    change (t + 1022).toNat = 0 at h
    omega
  have hmantissa : (1#1 ++ BitVec.ofNat 52 m).toNat = m := by
    rw [toNat_one_append, BitVec.toNat_ofNat]
    omega
  change UnpackedFloat.unpack Format.binary64 (UnpackedFloat.pack Format.binary64 _) = _
  rw [hpack]
  generalize hbits : packComponents Format.binary64 .positive
    (BitVec.ofNat 11 (t + 1022).toNat) (BitVec.ofNat 52 m) = bits
  have hset : unpackExponent bits = BitVec.ofNat 11 (t + 1022).toNat := by
    rw [← hbits, unpackExponent_packComponents]
  have hdigits : unpackMantissa bits = BitVec.ofNat 52 m := by
    rw [← hbits, unpackMantissa_packComponents]
  have hsign : Sign.ofBitVec (unpackSign bits) = .positive := by
    rw [← hbits, unpackSign_packComponents]
    rfl
  rw [← hset] at hexponent hones hzero
  rw [← hdigits] at hmantissa
  obtain ⟨hpos, hnormal⟩ := exists_unpack_normal hones hzero
  rw [hnormal]
  exact finite_congr hsign hmantissa (by omega)

/-! ## Natural numbers as doubles -/

/-- The double of a natural number, which is read as an integer and multiplied
by one. -/
theorem exists_leading_float (hpos : 0 < n) (hn : n < 2 ^ 53) :
    ∃ u, (n.log2 : Int) + 1 ≤ u ∧ u ≤ n.log2 + 4 ∧
      Leading (Float.ofNat n).toModel.unpack u := by
  have hlog : n.log2 < 53 := (Nat.log2_lt hpos.ne').mpr hn
  obtain ⟨s, hslo, hshi, hs⟩ := exists_leading_ofNat hpos hn
  have hword : n.toUInt64.toFloat.toModel.unpack = UnpackedFloat.ofNat Format.binary64 n := by
    have hfits : n.toUInt64.toNat = n := Nat.mod_eq_of_lt (by omega)
    rw [← unpack_pack_leading hs (by omega) (by omega)]
    change (Float.Model.pack (UnpackedFloat.ofNat Format.binary64 n.toUInt64.toNat)).unpack = _
    rw [hfits]
  have hone : Leading (Float.ofBits 0x3FF0000000000000).toModel.unpack 1 :=
    ⟨2 ^ 52, by decide, rfl, by decide, by decide⟩
  have hmul : (Float.ofNat n).toModel.unpack =
      (Float.Model.pack (UnpackedFloat.mul Format.binary64 n.toUInt64.toFloat.toModel.unpack
        (Float.ofBits 0x3FF0000000000000).toModel.unpack)).unpack := by
    change (Float.ofScientific n false 0).toModel.unpack = _
    unfold Float.ofScientific
    rw [dif_pos ⟨hn, by decide⟩]
    rfl
  rw [← hword] at hs
  obtain ⟨u, hulo, huhi, hu⟩ := exists_leading_mul hs hone (by omega)
  rw [hmul, unpack_pack_leading hu (by omega) (by omega)]
  exact ⟨u, by omega, by omega, hu⟩

/-- **A quotient of natural numbers is finite.** -/
theorem isFinite_div_ofNat (hmpos : 0 < m) (hm : m < 2 ^ 53) (hnpos : 0 < n) (hn : n < 2 ^ 53) :
    (Float.ofNat m / Float.ofNat n).isFinite = true := by
  have hmlog : m.log2 < 53 := (Nat.log2_lt hmpos.ne').mpr hm
  have hnlog : n.log2 < 53 := (Nat.log2_lt hnpos.ne').mpr hn
  obtain ⟨s, hslo, hshi, hs⟩ := exists_leading_float hmpos hm
  obtain ⟨t, htlo, hthi, ht⟩ := exists_leading_float hnpos hn
  obtain ⟨u, hulo, huhi, hu⟩ := exists_leading_div hs ht (by omega)
  change (Float.Model.pack (UnpackedFloat.div Format.binary64 _ _)).unpack.isFinite = true
  rw [unpack_pack_leading hu (by omega) (by omega)]
  obtain ⟨q, hq, heq, -⟩ := hu
  rw [heq]
  rfl

end Decimal

end MediaPipeline
