import MediaPipeline.Proofs.Configuration.Leaves
/-!
# Configuration/Order — in which order paths are listed

Paths are listed in the order of the names on their way, but the paths
themselves are texts, in which a dot stands behind each name. The two orders part
where one name goes on from another with a character up to the dot, as `CROP-2`
goes on from `CROP`: the smaller name stands first, and with it everything in its
scope, but in `CROP.WIDTH` the dot comes after the hyphen. Two ways that part so
are crossed (`Crossed`), and two ways in the order of names give paths in the
wrong order exactly where they are (`dotted_lt_dotted_iff`). So the paths of a
configuration are listed in ascending order exactly if no two of its values are
on crossed ways (`leafPaths_ascending_iff`), and some are not
(`not_ascending_leafPaths`).
-/


namespace MediaPipeline

/-! ## Lists in order -/

/-- In a list in order, what holds of each two holds of the smaller and the
greater one. -/
theorem pairwise_iff_of_lt {α : Type} [Preorder α] {l : List α} {R : α → α → Prop}
    (hl : l.Pairwise (· < ·)) : l.Pairwise R ↔ ∀ a ∈ l, ∀ b ∈ l, a < b → R a b := by
  refine ⟨fun h a ha b hb hlt => ?_, fun h => hl.imp_of_mem fun ha hb hlt => h _ ha _ hb hlt⟩
  induction l with
  | nil => exact absurd ha List.not_mem_nil
  | cons first rest ih =>
    obtain ⟨hfirst, hrest⟩ := List.pairwise_cons.mp hl
    obtain ⟨hR, hRrest⟩ := List.pairwise_cons.mp h
    rcases List.mem_cons.mp ha with rfl | harest
    · rcases List.mem_cons.mp hb with rfl | hbrest
      · exact absurd hlt (lt_irrefl _)
      · exact hR b hbrest
    · rcases List.mem_cons.mp hb with rfl | hbrest
      · exact absurd hlt (lt_asymm (hfirst a harest))
      · exact ih hrest hRrest harest hbrest

/-! ## Texts in order -/

namespace Text

variable {s t u v : String} {l m : List Char} {c d : Char}

theorem append_lt_append_iff (s : String) : s ++ t < s ++ u ↔ t < u := by
  simp only [String.lt_iff_toList_lt, String.toList_append]
  induction s.toList with
  | nil => rfl
  | cons c cs ih =>
    simp only [List.cons_append, List.cons_lt_cons_iff, lt_irrefl, false_or, true_and, ih]

theorem singleton_append_lt_iff :
    String.singleton c ++ s < String.singleton d ++ t ↔ c < d ∨ c = d ∧ s < t := by
  simp only [String.lt_iff_toList_lt, String.toList_append, String.toList_singleton,
    List.singleton_append, List.cons_lt_cons_iff]

theorem not_append_lt (s t : String) : ¬ s ++ t < s := by
  intro h
  rw [← String.append_empty (s := s), String.append_assoc, append_lt_append_iff,
    String.lt_iff_toList_lt] at h
  exact List.not_lt_nil _ h

theorem lt_append_singleton (s : String) (d : Char) (more : String) :
    s < s ++ (String.singleton d ++ more) := by
  refine lt_of_le_of_ne (not_lt.mp (not_append_lt s _)) fun heq => ?_
  simpa using congrArg String.length heq

theorem exists_eq_append_cons_or_lt (h : l < m) :
    (∃ d more, m = l ++ d :: more) ∨ ∀ u v, l ++ u < m ++ v := by
  induction l generalizing m with
  | nil =>
    cases m with
    | nil => exact absurd h (List.not_lt_nil _)
    | cons d more => exact .inl ⟨d, more, rfl⟩
  | cons c l ih =>
    cases m with
    | nil => exact absurd h (List.not_lt_nil _)
    | cons d m =>
      rcases List.cons_lt_cons_iff.mp h with hlt | ⟨rfl, hrest⟩
      · exact .inr fun u v => List.cons_lt_cons_iff.mpr (.inl hlt)
      · refine (ih hrest).imp ?_ fun happart u v => ?_
        · rintro ⟨d, more, rfl⟩
          exact ⟨d, more, rfl⟩
        · exact List.cons_lt_cons_iff.mpr (.inr ⟨rfl, happart u v⟩)

/-- **Of two texts in order,** either the second goes on from the first, or they
stay in order whatever they are continued with. -/
theorem exists_eq_append_or_lt (h : s < t) :
    (∃ d more, t = s ++ (String.singleton d ++ more)) ∨ ∀ u v, s ++ u < t ++ v := by
  refine (exists_eq_append_cons_or_lt (String.lt_iff_toList_lt.mp h)).imp ?_ fun happart u v => ?_
  · rintro ⟨d, more, hmore⟩
    exact ⟨d, String.ofList more, String.toList_injective (by simp [hmore])⟩
  · rw [String.lt_iff_toList_lt, String.toList_append, String.toList_append]
    exact happart u.toList v.toList

end Text

/-! ## Crossed ways -/

namespace Configuration

variable {name other : String} {way way' rest rest' : List String}

/-- Two ways of which the names are in order and the paths are not. Behind the names
that they share, the name on the second way goes on from that on the first, where
the first path has a dot, since its way does not end there: it goes on with a
character before the dot, or with a dot and a text that stands, together with the
rest of its way, before the rest of the first. -/
inductive Crossed : List String → List String → Prop
  | fork {name : String} {d : Char} {more : String} {rest rest' : List String} (hne : rest ≠ [])
      (h : d < '.' ∨ d = '.' ∧ dotted (more :: rest') < dotted rest) :
      Crossed (name :: rest) ((name ++ (String.singleton d ++ more)) :: rest')
  | shared {name : String} {rest rest' : List String} (h : Crossed rest rest') :
      Crossed (name :: rest) (name :: rest')

/-- A path is continued as its first name is. -/
theorem dotted_append (name more : String) (names : List String) :
    dotted ((name ++ more) :: names) = name ++ dotted (more :: names) :=
  String.intercalate_cons_append

/-- A path begins with the first name on its way. -/
theorem dotted_eq_append (name : String) (names : List String) :
    dotted (name :: names) = name ++ dotted ("" :: names) := by
  rw [← dotted_append, String.append_empty]

theorem ne_nil_of_lt (h : way < way') : way' ≠ [] := by
  rintro rfl
  exact List.not_lt_nil _ h

/-- Where one name goes on from another, the paths are compared from there on. -/
theorem dotted_fork_lt_iff {d : Char} {more : String} (hne : rest ≠ []) :
    dotted ((name ++ (String.singleton d ++ more)) :: rest') < dotted (name :: rest) ↔
      d < '.' ∨ d = '.' ∧ dotted (more :: rest') < dotted rest := by
  have hdot : "." = String.singleton '.' := rfl
  rw [dotted_append, dotted_append, dotted_cons hne, String.append_assoc,
    Text.append_lt_append_iff, hdot, Text.singleton_append_lt_iff]

theorem dotted_shared_lt_iff (hne : rest ≠ []) (hne' : rest' ≠ []) :
    dotted (name :: rest') < dotted (name :: rest) ↔ dotted rest' < dotted rest := by
  rw [dotted_cons hne, dotted_cons hne', Text.append_lt_append_iff]

/-- Crossed ways are in the order of names. -/
theorem Crossed.lt (h : Crossed way way') : way < way' := by
  induction h with
  | fork _ _ => exact List.cons_lt_cons_iff.mpr (.inl (Text.lt_append_singleton _ _ _))
  | shared _ ih => exact List.cons_lt_cons_iff.mpr (.inr ⟨rfl, ih⟩)

theorem Crossed.ne_nil (h : Crossed way way') : way ≠ [] := by
  cases h <;> exact List.cons_ne_nil _ _

/-- Crossed ways give paths in the wrong order. -/
theorem Crossed.dotted_lt (h : Crossed way way') : dotted way' < dotted way := by
  induction h with
  | fork hne h => exact (dotted_fork_lt_iff hne).mpr h
  | shared h ih => exact (dotted_shared_lt_iff h.ne_nil (ne_nil_of_lt h.lt)).mpr ih

/-- **Two ways in the order of names give paths in the wrong order** exactly where
they are crossed. The induction is over the names that they share. -/
theorem dotted_lt_dotted_iff (hlt : way < way') (hne : way ≠ []) :
    dotted way' < dotted way ↔ Crossed way way' := by
  refine ⟨fun h => ?_, Crossed.dotted_lt⟩
  induction way generalizing way' with
  | nil => exact absurd rfl hne
  | cons name rest ih =>
    obtain ⟨other, rest', rfl⟩ := List.exists_cons_of_ne_nil (ne_nil_of_lt hlt)
    rcases List.cons_lt_cons_iff.mp hlt with hname | ⟨rfl, hbehind⟩
    · rcases Text.exists_eq_append_or_lt hname with ⟨d, more, rfl⟩ | happart
      · have hrest : rest ≠ [] := by
          rintro rfl
          rw [dotted_append] at h
          exact Text.not_append_lt _ _ h
        exact .fork hrest ((dotted_fork_lt_iff hrest).mp h)
      · rw [dotted_eq_append, dotted_eq_append name] at h
        exact absurd h (lt_asymm (happart _ _))
    · have hrest : rest ≠ [] := by
        rintro rfl
        rw [dotted_eq_append] at h
        exact Text.not_append_lt _ _ h
      have h := (dotted_shared_lt_iff hrest (ne_nil_of_lt hbehind)).mp h
      exact .shared (ih hbehind hrest h)

/-! ## The order of the listing -/

/-- **Paths are listed in ascending order** exactly where no two values are on
crossed ways. -/
theorem leafPaths_ascending_iff (c : Configuration) :
    c.leafPaths.Pairwise (· ≤ ·) ↔
      ¬ ∃ way way', (c.root.valueAt? way).isSome ∧ (c.root.valueAt? way').isSome ∧
        Crossed way way' := by
  have hways : c.root.ways.Pairwise (· < ·) := Scope.pairwise_ways c.ordered
  have hmem (way : List String) : way ∈ c.root.ways ↔ (c.root.valueAt? way).isSome :=
    Scope.mem_ways c.ordered
  rw [leafPaths_eq, List.pairwise_map, pairwise_iff_of_lt hways]
  simp only [← hmem]
  constructor
  · rintro h ⟨way, way', hway, hway', hcrossed⟩
    exact not_lt.mpr (h way hway way' hway' hcrossed.lt) hcrossed.dotted_lt
  · intro h way hway way' hway' hlt
    refine not_lt.mp fun hwrong => h ⟨way, way', hway, hway', ?_⟩
    exact (dotted_lt_dotted_iff hlt (ne_nil_of_mem_ways hway)).mp hwrong

/-- Two croppings, one of them in a scope. -/
def cropped : Configuration :=
  (empty.set "CROP.WIDTH" (.number 640)).set "CROP-2" (.bool true)

/-- **Not everything is listed in ascending order:** the hyphen stands before the
dot, and the scope before the hyphen. -/
theorem not_ascending_leafPaths :
    cropped.leafPaths = ["CROP.WIDTH", "CROP-2"] ∧ ¬ cropped.leafPaths.Pairwise (· ≤ ·) := by
  have hlisted : cropped.leafPaths = ["CROP.WIDTH", "CROP-2"] := by decide +kernel
  have hlt : "CROP-2" < "CROP.WIDTH" := by decide +kernel
  rw [hlisted]
  exact ⟨rfl, fun h => not_lt.mpr (List.rel_of_pairwise_cons h List.mem_cons_self) hlt⟩

end Configuration

end MediaPipeline
