import MediaPipeline.Text
import Mathlib.Data.List.DropRight
/-!
# Text/Pieces — a text taken apart and put together again

The runs between separators are those of the split that the library has
(`runsBy_eq_splitOnP`), and a separator stands between the runs of what is on
either side of it (`runsBy_append_cons`). So the pieces of a text that was
joined are those of its parts (`pieces_append`). Put together again the pieces
of a text are the text (`intercalate_pieces`), and pieces without a separator
in them are read back (`pieces_intercalate`), as are words that are written with
a blank between them (`words_intercalate`). A text is cut where a separator comes
up first (`cutAt?_append`). What was trimmed has nothing left to trim
(`trim_trim`).
-/


namespace MediaPipeline

namespace Text

/-! ## Runs between separators -/

/-- The runs of a text are those of the split that the library has. -/
theorem runsBy_eq_splitOnP (p : Char → Bool) (cs : List Char) : runsBy p cs = cs.splitOnP p := by
  induction cs with
  | nil => rw [runsBy, List.splitOnP_nil]
  | cons c cs ih =>
    obtain ⟨run, runs, hruns⟩ := List.exists_cons_of_ne_nil (List.splitOnP_ne_nil p cs)
    rw [runsBy, List.splitOnP_cons_eq_if_modifyHead, ih, hruns]
    rfl

/-- No run holds a separator. -/
theorem not_sep_of_mem_runsBy {p : Char → Bool} {cs run : List Char} (h : run ∈ runsBy p cs) :
    ∀ c ∈ run, p c = false := by
  induction cs generalizing run with
  | nil =>
    rw [runsBy, List.mem_singleton] at h
    subst h
    exact fun c hc => absurd hc List.not_mem_nil
  | cons d cs ih =>
    rw [runsBy] at h
    split at h
    · rcases List.mem_cons.mp h with rfl | h
      · exact fun c hc => absurd hc List.not_mem_nil
      · exact ih h
    · rename_i hd
      obtain ⟨first, runs, hruns⟩ := List.exists_cons_of_ne_nil (runsBy_ne_nil p cs)
      rw [hruns] at h ih
      rcases List.mem_cons.mp h with rfl | h
      · -- the first run goes on with the character
        exact List.forall_mem_cons.mpr ⟨by simpa using hd, ih List.mem_cons_self⟩
      · exact ih (List.mem_cons_of_mem _ h)

/-- Every character is a separator or stands in a run. -/
theorem sep_or_mem_runsBy {p : Char → Bool} {cs : List Char} {c : Char} (h : c ∈ cs) :
    p c = true ∨ ∃ run ∈ runsBy p cs, c ∈ run := by
  induction cs with
  | nil => cases h
  | cons d cs ih =>
    rw [runsBy]
    by_cases hd : p d = true
    · rw [if_pos hd]
      rcases List.mem_cons.mp h with rfl | h
      · exact .inl hd
      · rcases ih h with hc | ⟨run, hrun, hc⟩
        · exact .inl hc
        · exact .inr ⟨run, List.mem_cons_of_mem _ hrun, hc⟩
    · rw [if_neg hd]
      obtain ⟨first, runs, hruns⟩ := List.exists_cons_of_ne_nil (runsBy_ne_nil p cs)
      rw [hruns] at ih ⊢
      rcases List.mem_cons.mp h with rfl | h
      · exact .inr ⟨c :: first, List.mem_cons_self, List.mem_cons_self⟩
      · -- the first run goes on with the character before it
        rcases ih h with hc | ⟨run, hrun, hc⟩
        · exact .inl hc
        · rcases List.mem_cons.mp hrun with rfl | hrun
          · exact .inr ⟨d :: run, List.mem_cons_self, List.mem_cons_of_mem _ hc⟩
          · exact .inr ⟨run, List.mem_cons_of_mem _ hrun, hc⟩

/-- A separator stands between the runs of what is on either side of it. -/
theorem runsBy_append_cons {p : Char → Bool} {sep : Char} (hsep : p sep = true)
    (cs ds : List Char) : runsBy p (cs ++ sep :: ds) = runsBy p cs ++ runsBy p ds := by
  rw [runsBy_eq_splitOnP, runsBy_eq_splitOnP, runsBy_eq_splitOnP,
    List.splitOnP_append_cons cs ds hsep]

/-- Without a separator there is one run. -/
theorem runsBy_eq_singleton {p : Char → Bool} {cs : List Char} (h : ∀ c ∈ cs, p c = false) :
    runsBy p cs = [cs] := by
  rw [runsBy_eq_splitOnP, List.splitOnP_eq_singleton h]

theorem toList_append_singleton (sep : Char) (s t : String) :
    (s ++ String.singleton sep ++ t).toList = s.toList ++ sep :: t.toList := by simp

/-! ## Pieces -/

/-- A separator stands between the pieces of what is on either side of it. -/
theorem pieces_append (sep : Char) (s t : String) :
    pieces sep (s ++ String.singleton sep ++ t) = pieces sep s ++ pieces sep t := by
  have hruns := runsBy_append_cons (p := (· == sep)) (beq_self_eq_true sep) s.toList t.toList
  unfold pieces
  rw [toList_append_singleton, hruns, List.map_append]

/-- A text without a separator is one piece. -/
theorem pieces_eq_singleton {sep : Char} {s : String} (h : sep ∉ s.toList) :
    pieces sep s = [s] := by
  have hnone : ∀ c ∈ s.toList, (c == sep) = false :=
    fun c hc => beq_eq_false_iff_ne.mpr fun heq => h (heq ▸ hc)
  unfold pieces
  rw [runsBy_eq_singleton hnone, List.map_singleton, String.ofList_toList]

/-- **Put together again, the pieces of a text are the text.** -/
theorem intercalate_pieces (sep : Char) (s : String) :
    String.intercalate (String.singleton sep) (pieces sep s) = s := by
  have hruns : (pieces sep s).map String.toList = s.toList.splitOn sep := by
    unfold pieces
    rw [List.map_map, runsBy_eq_splitOnP]
    exact (List.map_congr_left fun _ _ => String.toList_ofList).trans (List.map_id _)
  refine String.toList_injective ?_
  rw [String.toList_intercalate, hruns, String.toList_singleton]
  exact List.intercalate_splitOn sep

/-- **Pieces that are put together are those of the text,** where none of them
holds a separator and there is one at least. -/
theorem pieces_intercalate {sep : Char} {ps : List String} (hne : ps ≠ [])
    (h : ∀ piece ∈ ps, sep ∉ piece.toList) :
    pieces sep (String.intercalate (String.singleton sep) ps) = ps := by
  have hnone : ∀ run ∈ ps.map String.toList, sep ∉ run := List.forall_mem_map.mpr h
  have hsplit : List.splitOn sep ([sep].intercalate (ps.map String.toList)) =
      ps.map String.toList :=
    List.splitOn_intercalate sep hnone (mt List.map_eq_nil_iff.mp hne)
  unfold pieces
  rw [runsBy_eq_splitOnP, String.toList_intercalate, String.toList_singleton]
  refine (congrArg (List.map String.ofList) hsplit).trans ?_
  rw [List.map_map]
  exact (List.map_congr_left fun _ _ => String.ofList_toList).trans (List.map_id _)

/-- **A text is known by its pieces.** -/
theorem pieces_injective (sep : Char) : Function.Injective (pieces sep) :=
  Function.LeftInverse.injective (intercalate_pieces sep)

theorem not_mem_of_mem_pieces {sep : Char} {s piece : String} (h : piece ∈ pieces sep s) :
    sep ∉ piece.toList := by
  obtain ⟨run, hrun, rfl⟩ := List.mem_map.mp h
  intro hsep
  have hnot := not_sep_of_mem_runsBy hrun sep (by simpa using hsep)
  rw [beq_self_eq_true] at hnot
  cases hnot

/-- **A text is cut at the first separator in it.** -/
theorem cutAt?_append {sep : Char} {s : String} (h : sep ∉ s.toList) (t : String) :
    cutAt? sep (s ++ String.singleton sep ++ t) = some (s, t) := by
  have hnone : ∀ c ∈ s.toList, (c != sep) = true :=
    fun c hc => bne_iff_ne.mpr fun heq => h (heq ▸ hc)
  unfold cutAt?
  rw [toList_append_singleton, List.dropWhile_append_of_pos hnone,
    List.takeWhile_append_of_pos hnone]
  simp

/-! ## Blanks at the ends -/

theorem toList_trim (s : String) :
    (trim s).toList = (s.toList.dropWhile isBlank).rdropWhile isBlank := String.toList_ofList

theorem mem_of_mem_trim {s : String} {c : Char} (h : c ∈ (trim s).toList) : c ∈ s.toList := by
  rw [toList_trim] at h
  exact (List.dropWhile_sublist isBlank).mem ((List.rdropWhile_prefix isBlank _).subset h)

/-- **A text that was trimmed has nothing left to trim.** What is dropped at
the end leaves the beginning as it is. -/
theorem trim_trim (s : String) : trim (trim s) = trim s := by
  have hstart : (trim s).toList.dropWhile isBlank = (trim s).toList := by
    rw [toList_trim]
    refine List.dropWhile_eq_self_iff.mpr fun hlen => ?_
    have hfront := List.rdropWhile_prefix isBlank (s.toList.dropWhile isBlank)
    rw [hfront.getElem hlen]
    exact List.dropWhile_eq_self_iff.mp (List.dropWhile_idempotent isBlank s.toList) _
  apply String.toList_injective
  rw [toList_trim (trim s), hstart, toList_trim, List.rdropWhile_idempotent]

/-! ## Words -/

/-- A text that is one word: there is something in it, and no blank. -/
structure IsWord (s : String) : Prop where
  nonempty : s ≠ ""
  solid : ∀ c ∈ s.toList, isBlank c = false

/-- Only the characters that are there are looked at. -/
instance (s : String) : Decidable (IsWord s) :=
  decidable_of_iff (s ≠ "" ∧ s.toList.all (!isBlank ·) = true)
    ⟨fun ⟨hnonempty, hsolid⟩ => ⟨hnonempty, by simpa using hsolid⟩,
      fun h => ⟨h.nonempty, by simpa using h.solid⟩⟩

theorem IsWord.append {s t : String} (hs : IsWord s) (ht : IsWord t) : IsWord (s ++ t) := by
  refine ⟨fun h => hs.nonempty (String.append_eq_empty_iff.mp h).1, fun c hc => ?_⟩
  rw [String.toList_append] at hc
  exact (List.mem_append.mp hc).elim (hs.solid c) (ht.solid c)

/-- **The words of a text are words.** -/
theorem isWord_of_mem_words {s word : String} (h : word ∈ words s) : IsWord word := by
  obtain ⟨run, hrun, rfl⟩ := List.mem_map.mp h
  obtain ⟨hrun, hnonempty⟩ := List.mem_filter.mp hrun
  refine ⟨fun hempty => ?_, fun c hc => ?_⟩
  · rw [← String.toList_eq_nil_iff, String.toList_ofList] at hempty
    simp [hempty] at hnonempty
  · exact not_sep_of_mem_runsBy hrun c (by simpa using hc)

/-- A blank stands between the words of what is on either side of it. -/
theorem words_append {blank : Char} (hblank : isBlank blank = true) (s t : String) :
    words (s ++ String.singleton blank ++ t) = words s ++ words t := by
  unfold words
  rw [toList_append_singleton, runsBy_append_cons hblank, List.filter_append, List.map_append]

theorem IsWord.words_eq {s : String} (h : IsWord s) : words s = [s] := by
  unfold words
  rw [runsBy_eq_singleton h.solid]
  simp [h.nonempty]

/-- **Words with a blank between them are the words of the text.** -/
theorem words_intercalate {ws : List String} (h : ∀ word ∈ ws, IsWord word) :
    words (String.intercalate " " ws) = ws := by
  induction ws with
  | nil => rfl
  | cons word rest ih =>
    obtain ⟨hword, hrest⟩ := List.forall_mem_cons.mp h
    cases rest with
    | nil => rw [String.intercalate_singleton, hword.words_eq]
    | cons next rest =>
      rw [String.intercalate_cons_cons, show " " = String.singleton ' ' from rfl,
        words_append (by decide), hword.words_eq]
      exact congrArg (word :: ·) (ih hrest)

end Text

end MediaPipeline
