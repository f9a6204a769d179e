import MediaPipeline.Proofs.FilePath
import MediaPipeline.Proofs.Id
import MediaPipeline.Proofs.Traversal
import MediaPipeline.Workspace
/-!
# Workspace — outputs that never share a file

The path of an output ends with two pieces, the name of the session and the name
of the output (`exists_pieces_outputPath`), and so does the place that a file
tree has for it (`FileTree.exists_of_target`). Each of them is read back: the
first tells the session, and the second the step and the extension
(`eq_of_outputName`), since the number of the step ends at the first dot. So two
outputs that collide in any way are one (`eq_of_collides`).
-/


namespace MediaPipeline

open Traversal

namespace FilePath

/-! ## Paths that collide -/

/-- The pieces of a path that say something. -/
def stations (p : FilePath) : List String := (Text.pieces '/' p.text).filter (!isIdle ·)

/-- **Paths that collide.** Read piece by piece they are the same, or there are
file trees, before and after any changes, in which a file that is written under
the one stands where a file stands that is written under the other. -/
def Collides (p q : FilePath) : Prop :=
  p.stations = q.stations ∨
    ∃ (t u : FileTree) (place : Place), t.target p = .ok place ∧ u.target q = .ok place

end FilePath

namespace FileTree

variable {t : FileTree} {p : FilePath} {here place : Place} {before : List String}
variable {piece directory name : String}

/-- A name leads one place further down. -/
theorem eq_of_step (hpiece : FilePath.IsFileName piece) (h : t.step here piece = .ok place) :
    place = here ++ [piece] := by
  unfold FileTree.step at h
  obtain ⟨-, h⟩ := then_eq_ok.mp h
  rw [hpiece.busy, if_neg Bool.false_ne_true, if_neg hpiece.downward] at h
  split at h
  · cases h
  · exact (Except.ok.inj h).symm

/-- A name at the end of a path is the last piece that leads somewhere. -/
theorem reverse_piecesOf (hp : Text.pieces '/' p.text = before ++ [directory, name])
    (hname : FilePath.IsFileName name) :
    (piecesOf p).reverse = name :: directory :: before.reverse := by
  unfold piecesOf
  rw [List.reverse_reverse, hp]
  simp [hname.nonempty]

theorem eq_of_lastEntry {entry : Place × Option String}
    (hp : Text.pieces '/' p.text = before ++ [directory, name])
    (hdirectory : FilePath.IsFileName directory) (hname : FilePath.IsFileName name)
    (h : t.lastEntry p = .ok entry) : ∃ above, entry = (above ++ [directory], some name) := by
  have hisName : isName name = true := by
    unfold isName
    simp [hname.busy, hname.downward]
  unfold lastEntry at h
  obtain ⟨-, h⟩ := then_eq_ok.mp h
  rw [reverse_piecesOf hp hname] at h
  dsimp only at h
  obtain ⟨here, hhere, h⟩ := bind_eq_ok.mp h
  obtain ⟨-, h⟩ := then_eq_ok.mp h
  rw [if_pos hisName] at h
  rw [List.reverse_cons, List.reverse_reverse, List.foldlM_append] at hhere
  obtain ⟨above, -, hhere⟩ := bind_eq_ok.mp hhere
  obtain ⟨reached, hreached, hhere⟩ := bind_eq_ok.mp hhere
  cases h
  cases hhere
  exact ⟨above, by rw [eq_of_step hdirectory hreached]⟩

/-- **A file is written where its path says,** in a directory of the name that
stands before its own. -/
theorem exists_of_target (hp : Text.pieces '/' p.text = before ++ [directory, name])
    (hdirectory : FilePath.IsFileName directory) (hname : FilePath.IsFileName name)
    (h : t.target p = .ok place) : ∃ above, place = above ++ [directory, name] := by
  unfold target at h
  obtain ⟨entry, hentry, h⟩ := bind_eq_ok.mp h
  obtain ⟨above, rfl⟩ := eq_of_lastEntry hp hdirectory hname hentry
  dsimp only at h
  split at h
  · cases h
  · obtain ⟨reached, hreached, h⟩ := bind_eq_ok.mp h
    split at h
    · cases h
    · cases h
      exact ⟨above, by rw [eq_of_step hname hreached, List.append_assoc]; rfl⟩

end FileTree

namespace Workspace

variable {w w' : Workspace} {session session' : SessionId} {index index' : Nat}
variable {extension extension' : String}

/-! ## The pieces of an output -/

/-- The name of a session names a directory. -/
theorem isFileName_display (session : SessionId) : FilePath.IsFileName session.display := by
  have htext : session.display.toList = "session-".toList ++ session.id.hyphenated.toList :=
    String.toList_append
  refine .of_head? (c := 's') (by rw [htext]; rfl) (by decide) ?_
  rw [htext, List.mem_append]
  rintro (hslash | hslash)
  · exact absurd hslash (by decide)
  · rcases Id.mem_hyphenated hslash with hhyphen | hdigit
    · exact absurd hhyphen (by decide)
    · exact Id.ne_of_mem_digits (by decide) hdigit rfl

theorem toList_outputName (index : Nat) (extension : String) :
    (outputName index extension).toList =
      "step-".toList ++ ((Text.zeroFilled 2 index).toList ++ '.' :: extension.toList) := by
  simp [outputName]

/-- A character other than a digit does not stand in the number of a step. -/
theorem not_mem_zeroFilled {c : Char} (hc : Text.isDigit c = false) (width n : Nat) :
    c ∉ (Text.zeroFilled width n).toList := by
  intro hmem
  rw [Text.isDigit_of_mem_zeroFilled hmem] at hc
  cases hc

/-- The name of an output names a file. -/
theorem isFileName_outputName (index : Nat) (h : '/' ∉ extension.toList) :
    FilePath.IsFileName (outputName index extension) := by
  refine .of_head? (c := 's') (by rw [toList_outputName]; rfl) (by decide) ?_
  rw [toList_outputName]
  simp [not_mem_zeroFilled (c := '/') rfl, h]

/-- **The name of an output is cut at its first dot** into the number of the step
and the extension. -/
theorem cutAt?_outputName (index : Nat) (extension : String) :
    Text.cutAt? '.' (outputName index extension) =
      some ("step-" ++ Text.zeroFilled 2 index, extension) := by
  refine Text.cutAt?_append ?_ extension
  rw [String.toList_append, List.mem_append]
  exact not_or.mpr ⟨by decide, not_mem_zeroFilled (by decide) 2 index⟩

/-- **The name of an output tells the step and the extension.** -/
theorem eq_of_outputName (h : outputName index extension = outputName index' extension') :
    index = index' ∧ extension = extension' := by
  have hcut := congrArg (Text.cutAt? '.') h
  rw [cutAt?_outputName, cutAt?_outputName] at hcut
  obtain ⟨hstem, hextension⟩ := Prod.mk.inj (Option.some.inj hcut)
  have hnumber := congrArg (Text.naturalOf ·.toList) ((String.append_right_inj "step-").mp hstem)
  simp only [Text.naturalOf_zeroFilled] at hnumber
  exact ⟨hnumber, hextension⟩

/-- **The path of an output ends with the names of the session and the output.** -/
theorem exists_pieces_outputPath (w : Workspace) (session : SessionId) (index : Nat)
    (h : '/' ∉ extension.toList) :
    ∃ before, Text.pieces '/' (w.outputPath session index extension).text =
      before ++ [session.display, outputName index extension] := by
  obtain ⟨before, hbefore⟩ := FilePath.exists_pieces_join w.root
    (q := ⟨session.display⟩) (isFileName_display session).single
  exact ⟨before, FilePath.pieces_join_of_last hbefore (isFileName_display session).nonempty
    (q := ⟨outputName index extension⟩) (isFileName_outputName index h).single⟩

/-- The path of an output does not depend on the file tree. -/
theorem path_of_stepOutput {t made : FileTree} {path : FilePath}
    (h : w.stepOutput t session index extension = .ok (path, made)) :
    path = w.outputPath session index extension := by
  unfold stepOutput at h
  split at h
  · exact (Prod.mk.inj (Except.ok.inj h)).1.symm
  · cases h

/-! ## Outputs that collide -/

/-- The last two pieces of a path tell which output it is of. -/
theorem eq_of_last_pieces {before before' : List String}
    (h : before ++ [session.display, outputName index extension] =
      before' ++ [session'.display, outputName index' extension']) :
    session = session' ∧ index = index' ∧ extension = extension' := by
  have hlast : [session.display, outputName index extension] =
      [session'.display, outputName index' extension'] :=
    (List.append_inj' h (by simp)).2
  obtain ⟨hdisplay, hname⟩ := List.cons_eq_cons.mp hlast
  exact ⟨SessionId.display_injective hdisplay, eq_of_outputName (List.singleton_inj.mp hname)⟩

theorem exists_stations_outputPath (w : Workspace) (session : SessionId) (index : Nat)
    (h : '/' ∉ extension.toList) :
    ∃ before, (w.outputPath session index extension).stations =
      before ++ [session.display, outputName index extension] := by
  obtain ⟨before, hbefore⟩ := w.exists_pieces_outputPath session index h
  refine ⟨before.filter (!FilePath.isIdle ·), ?_⟩
  unfold FilePath.stations
  rw [hbefore, List.filter_append]
  simp [(isFileName_display session).busy, (isFileName_outputName index h).busy]

/-- **Outputs that collide are one:** they are of the same session and step, and
have the same extension, wherever their workspaces are. -/
theorem eq_of_collides (h : '/' ∉ extension.toList) (h' : '/' ∉ extension'.toList)
    (hcollide : (w.outputPath session index extension).Collides
      (w'.outputPath session' index' extension')) :
    session = session' ∧ index = index' ∧ extension = extension' := by
  rcases hcollide with hstations | ⟨t, u, place, hplace, hplace'⟩
  · obtain ⟨before, hbefore⟩ := w.exists_stations_outputPath session index h
    obtain ⟨before', hbefore'⟩ := w'.exists_stations_outputPath session' index' h'
    rw [hbefore, hbefore'] at hstations
    exact eq_of_last_pieces hstations
  · obtain ⟨before, hbefore⟩ := w.exists_pieces_outputPath session index h
    obtain ⟨before', hbefore'⟩ := w'.exists_pieces_outputPath session' index' h'
    obtain ⟨above, rfl⟩ := FileTree.exists_of_target hbefore (isFileName_display session)
      (isFileName_outputName index h) hplace
    obtain ⟨above', habove⟩ := FileTree.exists_of_target hbefore' (isFileName_display session')
      (isFileName_outputName index' h') hplace'
    exact eq_of_last_pieces habove

end Workspace

end MediaPipeline
