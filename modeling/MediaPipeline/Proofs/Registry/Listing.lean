import MediaPipeline.Proofs.Registry.Addressing
import MediaPipeline.Proofs.Registry.Segments
/-!
# Registry/Listing — whether a listed path leads to its node

The listing joins the names on the way to a node with slashes, and a search
takes a path apart at its slashes and blanks. Where every name is plain the
two agree (`exists_leads_of_mem_pathsIn`): each listed path leads to its node,
and no path is listed twice. Catalogs may have names of any kind, though. A
node whose name is not plain is found by no path at all, and two nodes may be
listed by one (`not_addressed_of_build`). So what is listed can be found
exactly where all names are plain (`addressed_iff_plain`).
-/


namespace MediaPipeline

namespace Registry

namespace Node

variable {row : List Node} {n : Node} {e : String × Node} {path : String}

/-! ## What a listing holds -/

theorem pathsBelow_eq :
    n.pathsBelow path =
      (pathBelow path n.name, n) :: pathsIn (pathBelow path n.name) n.child := by
  cases n
  rw [pathsBelow]

theorem pathsIn_eq_flatMap : pathsIn path row = row.flatMap (pathsBelow path) := by
  induction row with
  | nil => rw [pathsIn, List.flatMap_nil]
  | cons n row ih => rw [pathsIn, List.flatMap_cons, ih]

theorem mem_pathsIn :
    e ∈ pathsIn path row ↔ ∃ n ∈ row, e = (pathBelow path n.name, n) ∨
      e ∈ pathsIn (pathBelow path n.name) n.child := by
  rw [pathsIn_eq_flatMap, List.mem_flatMap]
  simp only [pathsBelow_eq, List.mem_cons]

/-- A listing in which every node has a plain name. -/
def PlainIn (path : String) (row : List Node) : Prop :=
  ∀ e ∈ pathsIn path row, Selection.Plain e.2.name

theorem PlainIn.name (h : PlainIn path row) (hn : n ∈ row) : Selection.Plain n.name :=
  h (pathBelow path n.name, n) (mem_pathsIn.mpr ⟨n, hn, .inl rfl⟩)

theorem PlainIn.child (h : PlainIn path row) (hn : n ∈ row) :
    PlainIn (pathBelow path n.name) n.child :=
  fun e he => h e (mem_pathsIn.mpr ⟨n, hn, .inr he⟩)

/-- **A listed path holds the names on a trail to its node,** behind those of
the path above. The induction is over the tree. -/
theorem exists_leads_of_mem_pathsIn (hrow : Distinct row) (hplain : PlainIn path row)
    (he : e ∈ pathsIn path row) :
    ∃ trail i, Leads row trail ∧ trail.getLast? = some (i, e.2) ∧
      Selection.segments e.1 = Selection.segments path ++ trailNames trail := by
  induction hrow generalizing path with
  | intro _ _ ih =>
    obtain ⟨n, hn, he⟩ := mem_pathsIn.mp he
    obtain ⟨i, hi⟩ := List.mem_iff_getElem?.mp hn
    have hpath := Selection.segments_pathBelow path (hplain.name hn)
    rcases he with rfl | he
    · exact ⟨[(i, n)], i, .down hi .stop, rfl, hpath⟩
    · obtain ⟨trail, j, hleads, hlast, hsegments⟩ := ih n hn (hplain.child hn) he
      refine ⟨(i, n) :: trail, j, .down hi hleads, ?_, ?_⟩
      · rw [List.getLast?_cons, hlast]
        rfl
      · rw [hsegments, hpath, List.append_assoc]
        rfl

/-- What is listed for a node of a row holds the name of that node next. -/
theorem exists_segments_eq (hrow : Distinct row) (hplain : PlainIn path row) (hn : n ∈ row)
    (he : e ∈ n.pathsBelow path) :
    ∃ more, Selection.segments e.1 = Selection.segments path ++ n.name :: more := by
  have hpath := Selection.segments_pathBelow path (hplain.name hn)
  rw [pathsBelow_eq] at he
  rcases List.mem_cons.mp he with rfl | he
  · exact ⟨[], hpath⟩
  · obtain ⟨trail, i, -, -, hsegments⟩ :=
      exists_leads_of_mem_pathsIn (hrow.child hn) (hplain.child hn) he
    rw [hpath, List.append_assoc] at hsegments
    exact ⟨trailNames trail, hsegments⟩

/-- **No path is listed twice.** The paths below a node are longer than that of
the node, and those of two nodes of a row hold different names next. -/
theorem nodup_pathsIn (hrow : Distinct row) (hplain : PlainIn path row) :
    ((pathsIn path row).map (·.1)).Nodup := by
  induction hrow generalizing path with
  | intro hnames hbelow ih =>
    have hrow : Distinct _ := .intro hnames hbelow
    rw [pathsIn_eq_flatMap, List.map_flatMap, List.nodup_flatMap]
    constructor
    · intro n hn
      rw [pathsBelow_eq, List.map_cons, List.nodup_cons]
      refine ⟨fun hmem => ?_, ih n hn (hplain.child hn)⟩
      obtain ⟨e, he, heq⟩ := List.mem_map.mp hmem
      obtain ⟨trail, i, -, hlast, hsegments⟩ :=
        exists_leads_of_mem_pathsIn (hbelow n hn) (hplain.child hn) he
      rw [heq] at hsegments
      have hnone : trailNames trail = [] := List.self_eq_append_right.mp hsegments
      rw [List.map_eq_nil_iff.mp hnone] at hlast
      cases hlast
    · refine (List.pairwise_map.mp hnames).imp_of_mem fun {n m} hn hm hne => ?_
      refine List.disjoint_left.mpr fun listed hlisted hlisted' => hne ?_
      obtain ⟨e, he, rfl⟩ := List.mem_map.mp hlisted
      obtain ⟨e', he', heq⟩ := List.mem_map.mp hlisted'
      obtain ⟨more, hmore⟩ := exists_segments_eq hrow hplain hn he
      obtain ⟨more', hmore'⟩ := exists_segments_eq hrow hplain hm he'
      rw [heq, hmore] at hmore'
      exact (List.cons_eq_cons.mp (List.append_cancel_left hmore')).1

end Node

variable {c : Catalogs} {settings : Settings.Catalog} {r : Registry} {n : Node} {path : String}

/-- What a path leads to has a plain name. -/
theorem plain_of_get? (hroots : Node.Distinct r.roots) (h : r.get? path = some n) :
    Selection.Plain n.name := by
  obtain ⟨trail, i, -, hlast, hnames⟩ := (get?_eq_some hroots).mp h
  have hmem : n.name ∈ Node.trailNames trail :=
    List.mem_map.mpr ⟨(i, n), List.mem_of_getLast? hlast, rfl⟩
  rw [hnames] at hmem
  exact Selection.plain_of_mem_segments hmem

/-- **What is listed can be found,** each node by its path, exactly where all
names in the tree are plain; and where they are, no path is listed twice. -/
theorem addressed_iff_plain (h : build c settings = .ok r) :
    ((∀ e ∈ r.paths, r.get? e.1 = some e.2) ↔ ∀ e ∈ r.paths, Selection.Plain e.2.name) ∧
      ((∀ e ∈ r.paths, Selection.Plain e.2.name) → (r.paths.map (·.1)).Nodup) := by
  have hroots := distinct_of_build h
  refine ⟨⟨fun hfound e he => plain_of_get? hroots (hfound e he), fun hplain e he => ?_⟩,
    Node.nodup_pathsIn hroots⟩
  obtain ⟨trail, i, hleads, hlast, hsegments⟩ := Node.exists_leads_of_mem_pathsIn hroots hplain he
  exact (get?_eq_some hroots).mpr ⟨trail, i, hleads, hlast, hsegments.symm⟩

theorem addressed_iff_plain_newsreels :
    ∃ r, build newsreels {} = .ok r ∧ (∀ e ∈ r.paths, r.get? e.1 = some e.2) ∧
      (r.paths.map (·.1)).Nodup := by
  have hbuild : ∃ r, build newsreels {} = .ok r ∧ r.paths.map (·.2.name) =
      ["Features", "Grayscale", "Remove Audio", "Workflows", "Mute", "Newsreel", "Epilogue",
        "Clear"] := ⟨_, by cbv, by cbv⟩
  obtain ⟨r, hbuild, hnames⟩ := hbuild
  have hplain : ∀ e ∈ r.paths, Selection.Plain e.2.name := by
    have hall : ∀ name ∈ r.paths.map (·.2.name), Selection.Plain name := by
      rw [hnames]
      decide
    exact fun e he => hall _ (List.mem_map_of_mem he)
  obtain ⟨hfound, hnodup⟩ := addressed_iff_plain hbuild
  exact ⟨r, hbuild, hfound.mpr hplain, hnodup hplain⟩

/-- A workflow with a slash in its name, and one with a child, which are listed
by one path. -/
def medleys : Catalogs where
  features := ⟨[.grayscale, .removeAudio]⟩
  workflows := ⟨[{ name := "Song/Dance", steps := [.feature "GRAYSCALE"] },
    { name := "Song", steps := [.feature "GRAYSCALE"],
      child := [{ name := "Dance", steps := [.feature "REMOVE_AUDIO"] }] }]⟩

/-- **Not everything that is listed can be found,** and paths may be listed
twice, since a tree is built with names of any kind. -/
theorem not_addressed_of_build :
    (¬ ∀ (c : Catalogs) (settings : Settings.Catalog) (r : Registry),
      build c settings = .ok r → ∀ e ∈ r.paths, r.get? e.1 = some e.2) ∧
    ¬ ∀ (c : Catalogs) (settings : Settings.Catalog) (r : Registry),
      build c settings = .ok r → (r.paths.map (·.1)).Nodup := by
  have hbuild : ∃ r, build medleys {} = .ok r ∧
      r.paths.map (·.2.name) = ["Features", "Grayscale", "Remove Audio", "Workflows",
        "Song/Dance", "Song", "Dance", "Clear"] ∧
      r.paths.map (·.1) = ["Features", "Features/Grayscale", "Features/Remove Audio", "Workflows",
        "Workflows/Song/Dance", "Workflows/Song", "Workflows/Song/Dance", "Clear"] :=
    ⟨_, by cbv, by cbv, by cbv⟩
  obtain ⟨r, hbuild, hnames, hpaths⟩ := hbuild
  constructor
  · intro hall
    have hlisted : "Song/Dance" ∈ r.paths.map (·.2.name) := by
      rw [hnames]
      decide
    obtain ⟨e, he, hname⟩ := List.mem_map.mp hlisted
    have hplain := plain_of_get? (distinct_of_build hbuild) (hall _ _ r hbuild e he)
    rw [hname] at hplain
    exact absurd hplain (by decide)
  · intro hall
    have hnodup := hall _ _ r hbuild
    rw [hpaths] at hnodup
    exact absurd hnodup (by decide)

end Registry

end MediaPipeline
