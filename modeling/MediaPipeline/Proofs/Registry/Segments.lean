import MediaPipeline.Proofs.Text.Pieces
import MediaPipeline.Registry.Node
import MediaPipeline.Registry.Selection
/-!
# Registry/Segments — the names that a path holds

A path holds the names of what it is joined from, in order (`segments_append`).
What it holds are plain names: not empty, without blanks at their ends and
without a slash in them (`plain_of_mem_segments`). So the path of a node holds
the name of the node behind those of the path above it where that name is
plain (`segments_pathBelow`), and no path holds a name that is not.
-/


namespace MediaPipeline

namespace Selection

variable {path name : String}

/-- A name that a path can hold. -/
structure Plain (name : String) : Prop where
  nonempty : name ≠ ""
  trimmed : Text.trim name = name
  whole : '/' ∉ name.toList

instance : Decidable (Plain name) :=
  decidable_of_iff (name ≠ "" ∧ Text.trim name = name ∧ '/' ∉ name.toList)
    ⟨fun ⟨hnonempty, htrimmed, hwhole⟩ => ⟨hnonempty, htrimmed, hwhole⟩,
      fun h => ⟨h.nonempty, h.trimmed, h.whole⟩⟩

/-- **A path joined from two holds the names of both,** in order. -/
theorem segments_append (a b : String) : segments (a ++ "/" ++ b) = segments a ++ segments b := by
  unfold segments
  rw [show "/" = String.singleton '/' from rfl, Text.pieces_append, List.map_append,
    List.filter_append]

/-- A plain name is a path to itself. -/
theorem Plain.segments_eq (h : Plain name) : segments name = [name] := by
  unfold segments
  rw [Text.pieces_eq_singleton h.whole, List.map_singleton, h.trimmed]
  simp [h.nonempty]

/-- **A path holds plain names.** -/
theorem plain_of_mem_segments (h : name ∈ segments path) : Plain name := by
  obtain ⟨htrimmed, hnonempty⟩ := List.mem_filter.mp h
  obtain ⟨piece, hpiece, rfl⟩ := List.mem_map.mp htrimmed
  exact ⟨by simpa using hnonempty, Text.trim_trim piece,
    fun hslash => Text.not_mem_of_mem_pieces hpiece (Text.mem_of_mem_trim hslash)⟩

/-- **The path of a node ends in its name,** where that is plain, whatever the
path above it is. -/
theorem segments_pathBelow (path : String) (h : Plain name) :
    segments (Registry.Node.pathBelow path name) = segments path ++ [name] := by
  unfold Registry.Node.pathBelow
  split
  · rename_i hpath
    rw [hpath, h.segments_eq]
    rfl
  · rw [segments_append, h.segments_eq]

end Selection

end MediaPipeline
