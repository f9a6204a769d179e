import MediaPipeline.Invocation
import MediaPipeline.Proofs.Text.Pieces
/-!
# Invocation — the written line read back

`LineState.words?` reads a line as a command line is read: blanks stand between
words, and single quotes group what is between them, as it is. An argument
without a quote in it is read back, whether it was quoted or not
(`words?_quoted`), and so are several (`words?_tail`). The program is never
quoted, so it falls apart into its words (`words?_text`). As no word that is read
holds a quote (`quoteless_of_words?`), a line is read back exactly where the
program is a single word and no quote is anywhere (`readsBack_iff_plain`).
-/


namespace MediaPipeline

namespace Text

/-! ## Reading a line -/

/-- The character that groups text in a line. -/
def quoteMark : Char := '\x27'

/-- Where the reader of a line stands: between two words, in a word, or between
the quotes in a word, with what it has read of the word. -/
inductive LineState where
  | between
  | inWord (soFar : List Char)
  | inQuotes (soFar : List Char)

namespace LineState

/-- The words of what is left of a line. There are none where a quote stays
open. -/
def words? : LineState → List Char → Option (List String)
  | between, [] => some []
  | inWord soFar, [] => some [String.ofList soFar]
  | inQuotes _, [] => none
  | between, c :: rest =>
    if c = quoteMark then words? (inQuotes []) rest
    else if isBlank c then words? between rest
    else words? (inWord [c]) rest
  | inWord soFar, c :: rest =>
    if c = quoteMark then words? (inQuotes soFar) rest
    else if isBlank c then (words? between rest).map (String.ofList soFar :: ·)
    else words? (inWord (soFar ++ [c])) rest
  | inQuotes soFar, c :: rest =>
    if c = quoteMark then words? (inWord soFar) rest
    else words? (inQuotes (soFar ++ [c])) rest

/-- What the reader has read of a word. -/
def soFar : LineState → List Char
  | between => []
  | inWord soFar => soFar
  | inQuotes soFar => soFar

end LineState

/-- The words of a line. -/
def lineWords? (line : String) : Option (List String) := LineState.between.words? line.toList

/-- There is no quote in a text. -/
def Quoteless (s : String) : Prop := quoteMark ∉ s.toList

instance (s : String) : Decidable (Quoteless s) := inferInstanceAs (Decidable (_ ∉ _))

namespace LineState

variable {c : Char} {cs rest : List Char} {w : List Char} {ws : List String}

/-! ## No word holds a quote -/

theorem quoteless_of_words? {state : LineState} (h : state.words? cs = some ws)
    (hstate : quoteMark ∉ state.soFar) : ∀ word ∈ ws, Quoteless word := by
  have hofList {w : List Char} (hw : quoteMark ∉ w) : Quoteless (String.ofList w) := by
    unfold Quoteless
    rwa [String.toList_ofList]
  have hpush {w : List Char} {c : Char} (hw : quoteMark ∉ w) (hc : c ≠ quoteMark) :
      quoteMark ∉ w ++ [c] := by
    simp [hw, hc.symm]
  fun_induction words? state cs generalizing ws with
  | case1 => simp_all
  | case2 w =>
    cases h
    exact List.forall_mem_singleton.mpr (hofList hstate)
  | case3 w => cases h
  | case4 rest ih => exact ih h List.not_mem_nil
  | case5 c rest hc hblank ih => exact ih h List.not_mem_nil
  | case6 c rest hc hblank ih => exact ih h (hpush List.not_mem_nil hc)
  | case7 w rest ih => exact ih h hstate
  | case8 w c rest hc hblank ih =>
    obtain ⟨later, hlater, rfl⟩ := Option.map_eq_some_iff.mp h
    exact List.forall_mem_cons.mpr ⟨hofList hstate, ih hlater List.not_mem_nil⟩
  | case9 w c rest hc hblank ih => exact ih h (hpush hstate hc)
  | case10 w rest ih => exact ih h hstate
  | case11 w c rest hc ih => exact ih h (hpush hstate hc)

/-! ## What is not quoted -/

/-- A word ends where this text goes on: it is at its end, or at a blank. -/
def EndsWord (rest : List Char) : Prop :=
  ∀ w, (inWord w).words? rest = (between.words? rest).map (String.ofList w :: ·)

theorem endsWord_nil : EndsWord [] := fun _ => rfl

theorem endsWord_blank (h : isBlank c = true) (hc : c ≠ quoteMark) (rest : List Char) :
    EndsWord (c :: rest) := by
  intro w
  simp only [words?, if_neg hc, if_pos h]

/-- A blank ends the words before it. -/
theorem words_ofList_append_cons (h : isBlank c = true) (w cs : List Char) :
    words (String.ofList (w ++ c :: cs)) = words (String.ofList w) ++ words (String.ofList cs) := by
  have hsplit : String.ofList (w ++ c :: cs) =
      String.ofList w ++ String.singleton c ++ String.ofList cs := by
    apply String.toList_injective
    simp
  rw [hsplit, words_append h]

/-- A character that is no blank makes a word longer. -/
theorem isWord_ofList_concat (h : isBlank c = false) (hw : ∀ d ∈ w, isBlank d = false) :
    IsWord (String.ofList (w ++ [c])) := by
  refine ⟨fun hempty => ?_, fun d hd => ?_⟩
  · have hnil := String.toList_eq_nil_iff.mpr hempty
    simp at hnil
  · rw [String.toList_ofList] at hd
    rcases List.mem_append.mp hd with hd | hd
    · exact hw d hd
    · rwa [List.mem_singleton.mp hd]

/-- **Text without a quote falls apart at its blanks.** The induction is over the
text, both between words and in one. -/
theorem words?_unquoted (hrest : EndsWord rest) (hcs : quoteMark ∉ cs) :
    between.words? (cs ++ rest) =
        (between.words? rest).map (words (String.ofList cs) ++ ·) ∧
      ∀ w, IsWord (String.ofList w) → (inWord w).words? (cs ++ rest) =
        (between.words? rest).map (words (String.ofList (w ++ cs)) ++ ·) := by
  induction cs with
  | nil =>
    refine ⟨?_, fun w hw => ?_⟩
    · show _ = (between.words? rest).map id
      rw [Option.map_id_fun, id, List.nil_append]
    · rw [List.nil_append, hrest w, List.append_nil, hw.words_eq]
      rfl
  | cons c cs ih =>
    obtain ⟨hc, hcs⟩ := not_or.mp (mt List.mem_cons.mpr hcs)
    obtain ⟨hbetween, hword⟩ := ih hcs
    cases hblank : isBlank c with
    | true =>
      refine ⟨?_, fun w hw => ?_⟩
      · have hwords := words_ofList_append_cons hblank [] cs
        rw [List.cons_append, words?, if_neg (Ne.symm hc), if_pos hblank, hbetween]
        rw [List.nil_append] at hwords
        rw [hwords]
        rfl
      · rw [List.cons_append, words?, if_neg (Ne.symm hc), if_pos hblank, hbetween, Option.map_map,
          words_ofList_append_cons hblank, hw.words_eq]
        rfl
    | false =>
      have hnot : ¬ isBlank c = true := by simp [hblank]
      refine ⟨?_, fun w hw => ?_⟩
      · have hfirst : IsWord (String.ofList ([] ++ [c])) :=
          isWord_ofList_concat hblank fun _ hd => absurd hd List.not_mem_nil
        rw [List.cons_append, words?, if_neg (Ne.symm hc), if_neg hnot, hword [c] hfirst]
        rfl
      · have hsolid : ∀ d ∈ w, isBlank d = false := by
          intro d hd
          exact hw.solid d (by rwa [String.toList_ofList])
        rw [List.cons_append, words?, if_neg (Ne.symm hc), if_neg hnot,
          hword (w ++ [c]) (isWord_ofList_concat hblank hsolid), List.append_cons w c cs]

/-! ## What is quoted -/

/-- Between quotes everything but a quote is read as it is. -/
theorem words?_inQuotes (hcs : quoteMark ∉ cs) (w rest : List Char) :
    (inQuotes w).words? (cs ++ quoteMark :: rest) = (inWord (w ++ cs)).words? rest := by
  induction cs generalizing w with
  | nil =>
    rw [List.nil_append, words?, if_pos rfl, List.append_nil]
  | cons c cs ih =>
    obtain ⟨hc, hcs⟩ := not_or.mp (mt List.mem_cons.mpr hcs)
    rw [List.cons_append, words?, if_neg (Ne.symm hc), ih hcs, List.append_assoc]
    rfl

end LineState

end Text

namespace Invocation

open Text Text.LineState

variable {i : Invocation} {arg : String} {args : List String} {rest : List Char}

/-- An argument is quoted, or it is a word. -/
theorem quoted_cases (arg : String) :
    (quoted arg).toList = quoteMark :: (arg.toList ++ [quoteMark]) ∨
      quoted arg = arg ∧ IsWord arg := by
  unfold quoted
  split
  · left
    simp [quoteMark]
  · right
    rename_i hplain
    simp only [Bool.or_eq_true, decide_eq_true_eq, not_or] at hplain
    exact ⟨rfl, hplain.1, by simpa using hplain.2⟩

/-- **An argument without a quote in it is read back.** -/
theorem words?_quoted (harg : Quoteless arg) (hrest : EndsWord rest) :
    between.words? ((quoted arg).toList ++ rest) = (between.words? rest).map (arg :: ·) := by
  rcases quoted_cases arg with hquoted | ⟨hquoted, hword⟩
  · have hline : (quoted arg).toList ++ rest = quoteMark :: (arg.toList ++ quoteMark :: rest) := by
      rw [hquoted]
      simp
    rw [hline, words?, if_pos rfl, words?_inQuotes harg, List.nil_append, hrest,
      String.ofList_toList]
  · rw [hquoted, (words?_unquoted hrest harg).1, String.ofList_toList, hword.words_eq]
    rfl

/-- What stands in a line behind the program. -/
def tail (args : List String) : List Char := args.flatMap fun arg => ' ' :: (quoted arg).toList

theorem toList_text (i : Invocation) : i.text.toList = i.program.text.toList ++ tail i.args := by
  have hjoin (first : String) (others : List String) :
      (String.intercalate " " (first :: others)).toList =
        first.toList ++ others.flatMap fun s => ' ' :: s.toList := by
    induction others generalizing first with
    | nil => simp
    | cons next others ih =>
      rw [String.intercalate_cons_cons, String.toList_append, String.toList_append, ih]
      simp
  unfold text tail
  rw [hjoin, List.flatMap_map]

theorem endsWord_tail (args : List String) : EndsWord (tail args) := by
  cases args with
  | nil => exact endsWord_nil
  | cons arg args => exact endsWord_blank (by decide) (by decide) _

/-- **Arguments without a quote in them are read back.** -/
theorem words?_tail (hargs : ∀ arg ∈ args, Quoteless arg) :
    between.words? (tail args) = some args := by
  induction args with
  | nil => rfl
  | cons arg args ih =>
    obtain ⟨harg, hargs⟩ := List.forall_mem_cons.mp hargs
    have hline : tail (arg :: args) = ' ' :: ((quoted arg).toList ++ tail args) := rfl
    have hskip : between.words? (tail (arg :: args)) =
        between.words? ((quoted arg).toList ++ tail args) := by
      rw [hline, words?, if_neg (by decide), if_pos (by decide)]
    rw [hskip, words?_quoted harg (endsWord_tail args), ih hargs, Option.map_some]

/-! ## The whole line -/

/-- The program and its arguments. -/
def parts (i : Invocation) : List String := i.program.text :: i.args

/-- **Without a quote, a line is read as the words of the program and the
arguments.** -/
theorem words?_text (hprogram : Quoteless i.program.text) (hargs : ∀ arg ∈ i.args, Quoteless arg) :
    lineWords? i.text = some (words i.program.text ++ i.args) := by
  unfold lineWords?
  rw [toList_text, (words?_unquoted (endsWord_tail i.args) hprogram).1, words?_tail hargs,
    String.ofList_toList, Option.map_some]

/-- The written line is read back as what was written. -/
def ReadsBack (i : Invocation) : Prop := lineWords? i.text = some i.parts

/-- The program is a single word, and there is no quote in it or in an
argument. -/
structure Plain (i : Invocation) : Prop where
  program : IsWord i.program.text
  quoteless : ∀ word ∈ i.parts, Quoteless word

theorem readsBack_iff : i.ReadsBack ↔ i.Plain := by
  constructor
  · intro h
    have hquoteless : ∀ word ∈ i.parts, Quoteless word :=
      quoteless_of_words? h List.not_mem_nil
    obtain ⟨hprogram, hargs⟩ := List.forall_mem_cons.mp hquoteless
    have hwords : some (words i.program.text ++ i.args) = some ([i.program.text] ++ i.args) :=
      (words?_text hprogram hargs).symm.trans h
    have hone : words i.program.text = [i.program.text] :=
      List.append_cancel_right (Option.some.inj hwords)
    exact ⟨isWord_of_mem_words (hone ▸ List.mem_singleton_self _), hquoteless⟩
  · intro h
    obtain ⟨hprogram, hargs⟩ := List.forall_mem_cons.mp h.quoteless
    unfold ReadsBack
    rw [words?_text hprogram hargs, h.program.words_eq]
    rfl

/-- **A written line is read back exactly where the program is a single word and
there is no quote,** and there it is the line of no other program and
arguments. -/
theorem readsBack_iff_plain (i : Invocation) :
    (i.ReadsBack ↔ i.Plain) ∧
      ∀ j : Invocation, i.Plain → j.Plain → i.text = j.text → i.parts = j.parts := by
  refine ⟨readsBack_iff, fun j hi hj htext => ?_⟩
  have hread : lineWords? i.text = some i.parts := readsBack_iff.mpr hi
  have hother : lineWords? j.text = some j.parts := readsBack_iff.mpr hj
  rw [htext, hother] at hread
  exact (Option.some.inj hread).symm

/-- A call with an argument of each kind. -/
def shrunk : Invocation :=
  { program := ⟨"/usr/bin/ffmpeg"⟩
    args := ["-i", "/in/my clip.mp4", "-metadata", "", "-vf", "scale=320:240"] }

theorem readsBack_iff_plain_shrunk :
    shrunk.Plain ∧ ({ shrunk with limitMs := 5 } : Invocation).Plain ∧ shrunk.ReadsBack ∧
      shrunk.parts = ({ shrunk with limitMs := 5 } : Invocation).parts := by
  have hplain : shrunk.Plain := ⟨by decide, by decide⟩
  have hhurried : ({ shrunk with limitMs := 5 } : Invocation).Plain := ⟨by decide, by decide⟩
  exact ⟨hplain, hhurried, (readsBack_iff_plain shrunk).1.mpr hplain,
    (readsBack_iff_plain shrunk).2 _ hplain hhurried rfl⟩

/-- A program in a directory with a blank in its name. -/
def roomy : Invocation := { program := ⟨"/opt/my tools/ffmpeg"⟩, args := ["-an"] }

/-- Another program, whose first argument is what stands behind the blank. -/
def cramped : Invocation := { program := ⟨"/opt/my"⟩, args := ["tools/ffmpeg", "-an"] }

theorem not_readsBack_roomy :
    lineWords? roomy.text = some ["/opt/my", "tools/ffmpeg", "-an"] ∧ ¬ roomy.ReadsBack ∧
      roomy.text = cramped.text ∧ roomy.parts ≠ cramped.parts := by
  have hread : lineWords? roomy.text = some ["/opt/my", "tools/ffmpeg", "-an"] := by decide
  refine ⟨hread, fun h => ?_, by decide, by decide⟩
  have heq : roomy.parts = ["/opt/my", "tools/ffmpeg", "-an"] :=
    Option.some.inj (h.symm.trans hread)
  exact absurd heq (by decide)

end Invocation

end MediaPipeline
