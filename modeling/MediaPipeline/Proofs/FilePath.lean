import MediaPipeline.FilePath
import MediaPipeline.Proofs.Text.Pieces
import Mathlib.Data.List.TakeWhile
/-!
# FilePath — names and extensions put together and read back

The pieces of a path that was joined end with those of the second part
(`exists_pieces_join`), so a file below a directory has the name that it was
given (`fileName?_join`), and the name of the directory stands right before it
(`pieces_join_of_last`). A name that was made of a stem and an extension has this
extension, as long as there is no dot in it (`splitName_append`); and what is
read as an extension never has a dot or a slash in it
(`isExtension_of_extension?`), so it can be given to another file.
-/


namespace MediaPipeline

namespace FilePath

variable {p q : FilePath} {name stem extension : String}

/-! ## Names -/

/-- A text that names a file: it is one piece of a path, which leads somewhere
and not upwards. -/
structure IsFileName (name : String) : Prop where
  single : '/' ∉ name.toList
  busy : isIdle name = false
  downward : name ≠ ".."

/-- A text that starts with a character other than a dot names a file, if there
is no slash in it. -/
theorem IsFileName.of_head? {c : Char} (hhead : name.toList.head? = some c) (hc : c ≠ '.')
    (hsingle : '/' ∉ name.toList) : IsFileName name := by
  have hother {other : String} (hne : other.toList.head? ≠ some c) : name ≠ other := by
    rintro rfl
    exact hne hhead
  have hempty : name ≠ "" := hother (by simp)
  have hdot : name ≠ "." := hother fun h => hc (Option.some.inj h).symm
  refine ⟨hsingle, ?_, hother fun h => hc (Option.some.inj h).symm⟩
  simp [isIdle, hempty, hdot]

theorem IsFileName.nonempty (h : IsFileName name) : name ≠ "" := by
  rintro rfl
  exact absurd h.busy (by decide)

theorem isAbsolute_of_not_mem (hq : '/' ∉ q.text.toList) : q.isAbsolute = false := by
  unfold isAbsolute
  refine beq_eq_false_iff_ne.mpr fun hhead => hq ?_
  exact List.mem_of_mem_head? hhead

/-- What is joined to a path with a slash between is the last piece. -/
theorem pieces_append_of_not_mem (s : String) (hq : '/' ∉ q.text.toList) :
    Text.pieces '/' (s ++ String.singleton '/' ++ q.text) = Text.pieces '/' s ++ [q.text] := by
  rw [Text.pieces_append, Text.pieces_eq_singleton hq]

theorem eq_append_of_slash {s : String} (h : (s.toList.getLast? == some '/') = true) :
    s = String.ofList s.toList.dropLast ++ String.singleton '/' := by
  apply String.toList_injective
  rw [String.toList_append, String.toList_ofList, String.toList_singleton,
    List.dropLast_append_getLast? '/' (beq_iff_eq.mp h)]

/-- Behind a slash at the end there is an empty piece. -/
theorem getLast?_pieces_slash (s : String) :
    (Text.pieces '/' (s ++ String.singleton '/')).getLast? = some "" := by
  have hpieces := Text.pieces_append '/' s ""
  rw [String.append_empty] at hpieces
  rw [hpieces]
  exact List.getLast?_concat

/-- A path that was joined ends with the second part, as a piece. -/
theorem exists_pieces_join (p : FilePath) (hq : '/' ∉ q.text.toList) :
    ∃ before, Text.pieces '/' (p.join q).text = before ++ [q.text] := by
  unfold join
  rw [isAbsolute_of_not_mem hq, Bool.false_or]
  split
  · exact ⟨[], Text.pieces_eq_singleton hq⟩
  · split
    · rename_i hslash
      -- the slash is there already
      refine ⟨Text.pieces '/' (String.ofList p.text.toList.dropLast), ?_⟩
      show Text.pieces '/' (p.text ++ q.text) = _
      rw [eq_append_of_slash hslash, pieces_append_of_not_mem _ hq]
      simp
    · exact ⟨_, pieces_append_of_not_mem p.text hq⟩

/-- Below a path that ends with a name, the second part stands behind all of its
pieces. -/
theorem pieces_join_of_last {before : List String} {last : String}
    (hp : Text.pieces '/' p.text = before ++ [last]) (hlast : last ≠ "")
    (hq : '/' ∉ q.text.toList) :
    Text.pieces '/' (p.join q).text = before ++ [last, q.text] := by
  have hend : (Text.pieces '/' p.text).getLast? = some last := by
    rw [hp, List.getLast?_concat]
  have hslash : (p.text.toList.getLast? == some '/') = false := by
    refine Bool.eq_false_iff.mpr fun hslash => hlast ?_
    rw [eq_append_of_slash hslash, getLast?_pieces_slash] at hend
    exact (Option.some.inj hend).symm
  have hempty : (p.text == "") = false := by
    refine beq_eq_false_iff_ne.mpr fun hempty => hlast ?_
    rw [hempty] at hend
    exact (Option.some.inj hend).symm
  unfold join
  rw [isAbsolute_of_not_mem hq, hempty, hslash]
  show Text.pieces '/' (p.text ++ "/" ++ q.text) = _
  exact (pieces_append_of_not_mem p.text hq).trans (by rw [hp]; simp)

/-- **A file below a directory has the name that it was given.** -/
theorem fileName?_join (p : FilePath) (h : IsFileName q.text) :
    (p.join q).fileName? = some q.text := by
  obtain ⟨before, hpieces⟩ := exists_pieces_join p h.single
  unfold fileName? dropIdle
  rw [hpieces, List.reverse_concat, List.dropWhile_cons_of_neg (by simp [h.busy])]
  simp [h.downward]

/-! ## Extensions -/

/-- A text that is an extension: it has no dot in it, and no slash. -/
structure IsExtension (extension : String) : Prop where
  dotless : '.' ∉ extension.toList
  single : '/' ∉ extension.toList

/-- **A stem and an extension are told apart again.** -/
theorem splitName_append (hstem : stem ≠ "") (h : '.' ∉ extension.toList) :
    splitName (stem ++ "." ++ extension) = (stem, some extension) := by
  have hreversed : (stem ++ "." ++ extension).toList.reverse =
      extension.toList.reverse ++ '.' :: stem.toList.reverse := by simp
  have hdotless : ∀ c ∈ extension.toList.reverse, (c != '.') = true := by
    intro c hc
    exact bne_iff_ne.mpr fun hdot => h (hdot ▸ List.mem_reverse.mp hc)
  have hnonempty : stem.toList.reverse.isEmpty = false := by simp [hstem]
  unfold splitName
  dsimp only
  rw [hreversed, List.dropWhile_append_of_pos hdotless, List.takeWhile_append_of_pos hdotless]
  simp [hnonempty]

/-- What is read as an extension is part of the name, and has no dot in it. -/
theorem of_splitName_eq_some (h : (splitName name).2 = some extension) :
    '.' ∉ extension.toList ∧ ∀ c ∈ extension.toList, c ∈ name.toList := by
  unfold splitName at h
  dsimp only at h
  split at h
  · cases h
  · split at h
    · cases h
    · cases h
      rw [String.toList_ofList]
      refine ⟨fun hdot => ?_, fun c hc => ?_⟩
      · have hnot := List.mem_takeWhile_imp (List.mem_reverse.mp hdot)
        simp at hnot
      · exact List.mem_reverse.mp (List.takeWhile_subset _ (List.mem_reverse.mp hc))

/-- **The extension of a path can be given to another file.** -/
theorem isExtension_of_extension? (h : p.extension? = some extension) : IsExtension extension := by
  obtain ⟨name, hname, hextension⟩ := Option.bind_eq_some_iff.mp h
  obtain ⟨hdot, hpart⟩ := of_splitName_eq_some hextension
  have hsolid : '/' ∉ name.toList := by
    unfold fileName? dropIdle at hname
    split at hname
    · cases hname
    · rename_i piece before hpieces
      split at hname
      · cases hname
      · cases hname
        have hmem : name ∈ (Text.pieces '/' p.text).reverse :=
          (List.dropWhile_sublist isIdle).mem (hpieces ▸ List.mem_cons_self)
        exact Text.not_mem_of_mem_pieces (List.mem_reverse.mp hmem)
  exact ⟨hdot, fun hslash => hsolid (hpart '/' hslash)⟩

end FilePath

end MediaPipeline
