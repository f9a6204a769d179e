import MediaPipeline.Decimal.Layout
import MediaPipeline.Proofs.Text.Digits
import MediaPipeline.Proofs.Text.Pieces
/-!
# Decimal/Layout — what the text of a number consists of

A finite double is written with digits, a point and a minus, and nothing else:
whatever its shortest digits are, and wherever the point falls among them, no
letter, no blank and no exponent sign is added (`numeric_plain`). So the text of
a number is one word.
-/


namespace MediaPipeline

namespace Text

/-- Whether a character may stand in a number: a digit, a point or a minus. -/
def isNumeral (c : Char) : Bool := isDigit c || c == '.' || c == '-'

/-- A text of a number: there is something in it, and every character of it may
stand in a number. -/
structure Numeric (s : String) : Prop where
  nonempty : s ≠ ""
  numeral : ∀ c ∈ s.toList, isNumeral c = true

instance (s : String) : Decidable (Numeric s) :=
  decidable_of_iff (s ≠ "" ∧ s.toList.all isNumeral = true)
    ⟨fun ⟨hnonempty, hnumeral⟩ => ⟨hnonempty, by simpa using hnumeral⟩,
      fun h => ⟨h.nonempty, by simpa using h.numeral⟩⟩

theorem isNumeral_of_isDigit {c : Char} (h : isDigit c = true) : isNumeral c = true := by
  simp [isNumeral, h]

/-- The blanks lie below and above the visible characters of ASCII. -/
theorem isBlank_of_visible {c : Char} (hlow : 0x20 < c.toNat) (hhigh : c.toNat < 0x85) :
    isBlank c = false := by
  simp [isBlank, isInRanges, blankRanges]
  omega

theorem isBlank_of_isNumeral {c : Char} (h : isNumeral c = true) : isBlank c = false := by
  simp only [isNumeral, isDigit, Bool.or_eq_true, Bool.and_eq_true, decide_eq_true_eq,
    beq_iff_eq] at h
  rcases h with (⟨hlow, hhigh⟩ | rfl) | rfl
  · have hlow : '0'.toNat ≤ c.toNat := hlow
    have hhigh : c.toNat ≤ '9'.toNat := hhigh
    exact isBlank_of_visible (Nat.lt_of_lt_of_le (by decide) hlow)
      (Nat.lt_of_le_of_lt hhigh (by decide))
  · decide
  · decide

theorem Numeric.isWord {s : String} (h : Numeric s) : IsWord s :=
  ⟨h.nonempty, fun c hc => isBlank_of_isNumeral (h.numeral c hc)⟩

theorem Numeric.append {s t : String} (hs : Numeric s) (ht : ∀ c ∈ t.toList, isNumeral c = true) :
    Numeric (s ++ t) := by
  refine ⟨fun h => hs.nonempty (String.append_eq_empty_iff.mp h).1, fun c hc => ?_⟩
  rw [String.toList_append] at hc
  exact (List.mem_append.mp hc).elim (hs.numeral c) (ht c)

theorem numeric_toString (n : Nat) : Numeric (toString n) :=
  ⟨toString_ne_empty n, fun _ hc => isNumeral_of_isDigit (isDigit_of_mem_toString hc)⟩

end Text

namespace Decimal

open Text

theorem numeral_zeros (n : Nat) : ∀ c ∈ (zeros n).toList, isNumeral c = true := by
  intro c hc
  rw [zeros, String.toList_ofList] at hc
  rw [(List.mem_replicate.mp hc).2]
  decide

/-- A point among numerals leaves numerals. -/
theorem numeric_pointed {digits : String} (h : Numeric digits) (places : Nat) :
    Numeric (pointed digits places) := by
  unfold pointed
  dsimp only
  generalize hfilled : zeros (places + 1 - digits.length) ++ digits = filled
  have hnumeral : ∀ c ∈ filled.toList, isNumeral c = true := by
    intro c hc
    rw [← hfilled, String.toList_append] at hc
    exact (List.mem_append.mp hc).elim (numeral_zeros _ c) (h.numeral c)
  refine ⟨fun hempty => ?_, fun c hc => ?_⟩
  · simp at hempty
  · simp only [String.toList_append, String.toList_ofList, List.mem_append] at hc
    rcases hc with (hc | hc) | hc
    · exact hnumeral c (List.mem_of_mem_take hc)
    · rw [List.mem_singleton.mp hc]
      decide
    · exact hnumeral c (List.mem_of_mem_drop hc)

theorem Scientific.numeric_plain (s : Scientific) : Numeric s.plain := by
  unfold Scientific.plain
  split
  · exact (numeric_toString s.digits).append (numeral_zeros _)
  · exact numeric_pointed (numeric_toString s.digits) _

theorem numeric_signed (negative : Bool) {s : String} (h : Numeric s) :
    Numeric (signed negative s) := by
  cases negative
  · exact h
  · have hminus : Numeric "-" := by decide
    exact hminus.append h.numeral

/-- **A finite double is written as a number.** -/
theorem numeric_plain {x : Float} (h : isFinite x = true) : Numeric (plain x) := by
  unfold isFinite at h
  unfold plain
  cases hparts : parts x with
  | notANumber => simp [hparts] at h
  | infinite negative => simp [hparts] at h
  | finite negative m q =>
    refine numeric_signed negative ?_
    split
    · decide
    · exact Scientific.numeric_plain _

end Decimal

end MediaPipeline
