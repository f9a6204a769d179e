import MediaPipeline.Json.Token
/-!
# Text/Digits — a natural number written in digits

The text of a natural number consists of digits, and writes that number
(`naturalOf_toString`), also with zeros before it (`naturalOf_zeroFilled`). It
starts with a zero for zero only, so it is also a whole number of JSON
(`isWholePart_toString`). A digit in base sixteen tells its value
(`hexValue?_digitChar`).
-/


namespace MediaPipeline

namespace Text

variable {n : Nat} {c : Char}

theorem toList_toString (n : Nat) : (toString n).toList = Nat.toDigits 10 n := by
  rw [Nat.toString_eq_ofList_toDigits, String.toList_ofList]

theorem isDigit_of_mem_toString (h : c ∈ (toString n).toList) : isDigit c = true := by
  rw [toList_toString] at h
  exact Nat.isDigit_of_mem_toDigits (by decide) (by decide) h

theorem toString_ne_empty (n : Nat) : toString n ≠ "" := by
  intro h
  have hdigits : Nat.toDigits 10 n = [] := by rw [← toList_toString, h, String.toList_empty]
  exact Nat.toDigits_ne_nil hdigits

/-- **The digits of a number write it.** -/
theorem naturalOf_toString (n : Nat) : naturalOf (toString n).toList = n := by
  have hfold : Nat.ofDigitChars 10 (Nat.toDigits 10 n) 0 = n := Nat.ofDigitChars_ten_toDigits
  rw [Nat.ofDigitChars_eq_foldl] at hfold
  rw [toList_toString]
  exact hfold

/-- Two natural numbers are never written alike. -/
theorem toString_injective : Function.Injective fun n : Nat => toString n := by
  intro m n h
  have hread := congrArg (fun s : String => naturalOf s.toList) h
  simpa only [naturalOf_toString] using hread

/-- A number with a zero before its other digits is zero. The last digit is
split off until one is left. -/
theorem head?_toDigits (h : 0 < n) : (Nat.toDigits 10 n).head? ≠ some '0' := by
  induction n using Nat.strongRecOn with
  | ind n ih =>
    rcases Nat.lt_or_ge n 10 with hlt | hge
    · have hdigit : ∀ n < 10, 0 < n → [n.digitChar].head? ≠ some '0' := by decide
      rw [Nat.toDigits_of_lt_base hlt]
      exact hdigit n hlt h
    · have hfirst := ih (n / 10) (by omega) (by omega)
      rw [Nat.toDigits_of_base_le (by decide) hge]
      cases hdigits : Nat.toDigits 10 (n / 10) with
      | nil => exact absurd hdigits Nat.toDigits_ne_nil
      | cons d ds =>
        rw [hdigits] at hfirst
        exact hfirst

theorem isWholePart_toString (n : Nat) : Json.isWholePart (toString n).toList = true := by
  rw [toList_toString]
  rcases Nat.eq_zero_or_pos n with rfl | hpos
  · rfl
  · have hhead := head?_toDigits hpos
    unfold Json.isWholePart
    split
    · exact absurd ‹_› Nat.toDigits_ne_nil
    · rfl
    · rename_i heq
      simp [heq] at hhead
    · rfl

/-! ## Zeros in front -/

/-- A number that is filled up with zeros consists of digits. -/
theorem isDigit_of_mem_zeroFilled {width : Nat} (h : c ∈ (zeroFilled width n).toList) :
    isDigit c = true := by
  unfold zeroFilled at h
  rw [String.toList_ofList, List.mem_append] at h
  rcases h with h | h
  · rw [List.eq_of_mem_replicate h]
    rfl
  · exact isDigit_of_mem_toString h

/-- **Zeros in front do not count.** -/
theorem naturalOf_zeroFilled (width n : Nat) : naturalOf (zeroFilled width n).toList = n := by
  have hzeros (count : Nat) :
      (List.replicate count '0').foldl (fun n c => 10 * n + digitValue c) 0 = 0 := by
    induction count with
    | zero => rfl
    | succ count ih => exact ih
  unfold zeroFilled naturalOf
  rw [String.toList_ofList, List.foldl_append, hzeros]
  exact naturalOf_toString n

/-! ## Hexadecimal digits -/

theorem hexValue?_digitChar : ∀ n < 16, hexValue? n.digitChar = some n := by decide

end Text

end MediaPipeline
