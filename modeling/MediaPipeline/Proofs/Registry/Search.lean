import MediaPipeline.Proofs.Registry.Listing
/-!
# Registry/Search — a search by name finds what is listed first

A search goes down the tree and stops at the first node with a name; the
listing goes down the same tree and leaves nothing out. Both look at a node
before those below it, and at these before the next node of the row, so what is
found is what is listed first under that name (`find?_eq_listed?`), also where a
name comes up in several rows. What is listed for a node and those below it
stands together in the listing of the tree (`pathsBelow_infix_pathsIn`), so one
listing tells what is found from any node (`search_follows_listing`).
-/


namespace MediaPipeline

namespace Registry

namespace Node

variable {row : List Node} {n m : Node} {name path : String} {i : Nat} {e : String × Node}
variable {trail : List (Nat × Node)} {listing more : List (String × Node)}

/-! ## The first entry with a name -/

/-- The node of the first entry of a listing whose node has a name. -/
def listed? (name : String) (listing : List (String × Node)) : Option Node :=
  (listing.find? fun e => e.2.name == name).map (·.2)

theorem listed?_cons :
    listed? name (e :: listing) = if e.2.name = name then some e.2 else listed? name listing := by
  unfold listed?
  by_cases hname : e.2.name = name <;> simp [hname]

theorem listed?_append :
    listed? name (listing ++ more) = (listed? name listing).or (listed? name more) := by
  unfold listed?
  rw [List.find?_append]
  cases listing.find? fun e => e.2.name == name <;> rfl

theorem listed?_eq_none : listed? name listing = none ↔ ∀ e ∈ listing, e.2.name ≠ name := by
  unfold listed?
  simp

mutual

/-- **A search from a node finds what is listed first** for it and the nodes
below it, whatever the path above it is. -/
theorem find?_eq_listed? (name path : String) (n : Node) :
    n.find? name = listed? name (n.pathsBelow path) := by
  match n with
  | ⟨own, description, kind, ui, child, steps⟩ =>
    rw [find?, pathsBelow, listed?_cons, findIn?_eq_listed? name (pathBelow path own) child]

/-- And so does a search through a row. -/
theorem findIn?_eq_listed? (name path : String) (row : List Node) :
    findIn? name row = listed? name (pathsIn path row) := by
  match row with
  | [] =>
    rw [findIn?, pathsIn]
    rfl
  | n :: rest =>
    rw [findIn?, pathsIn, listed?_append, find?_eq_listed? name path n,
      findIn?_eq_listed? name path rest]

end

/-! ## What is listed for a node -/

/-- The path above the last node on a trail that starts below a path. -/
def pathAbove (path : String) (trail : List (Nat × Node)) : String :=
  (trailNames trail).dropLast.foldl pathBelow path

theorem pathsBelow_infix_of_mem (hn : n ∈ row) : n.pathsBelow path <:+: pathsIn path row := by
  rw [pathsIn_eq_flatMap, List.flatMap_def]
  exact List.infix_of_mem_flatten (List.mem_map_of_mem hn)

/-- **What is listed for a node stands together,** under the names on the trail
that leads to it. The induction is over the trail. -/
theorem pathsBelow_infix_pathsIn (h : Leads row trail) (hlast : trail.getLast? = some (i, n)) :
    n.pathsBelow (pathAbove path trail) <:+: pathsIn path row := by
  induction h generalizing path with
  | stop => cases hlast
  | @down row j m rest here below ih =>
    have hfirst : m.pathsBelow path <:+: pathsIn path row :=
      pathsBelow_infix_of_mem (List.mem_of_getElem? here)
    cases rest with
    | nil =>
      cases hlast
      exact hfirst
    | cons next rest =>
      rw [List.getLast?_cons_cons] at hlast
      -- the row below a node is listed right behind it
      have hrow : pathsIn (pathBelow path m.name) m.child <:+: m.pathsBelow path := by
        rw [pathsBelow_eq]
        exact (List.suffix_cons _ _).isInfix
      exact ((ih hlast).trans hrow).trans hfirst

/-- A trail leads to each node that is listed. The recursion goes down the tree. -/
theorem exists_leads_of_mem {row : List Node} {path : String} (he : e ∈ pathsIn path row) :
    ∃ trail i, Leads row trail ∧ trail.getLast? = some (i, e.2) := by
  obtain ⟨n, hn, he⟩ := mem_pathsIn.mp he
  obtain ⟨i, hi⟩ := List.mem_iff_getElem?.mp hn
  rcases he with rfl | he
  · exact ⟨[(i, n)], i, .down hi .stop, rfl⟩
  · obtain ⟨trail, j, hleads, hlast⟩ := exists_leads_of_mem he
    refine ⟨(i, n) :: trail, j, .down hi hleads, ?_⟩
    rw [List.getLast?_cons, hlast]
    rfl
termination_by sizeOf row
decreasing_by
  have hlt := List.sizeOf_lt_of_mem hn
  cases n
  simp only [mk.sizeOf_spec] at hlt ⊢
  omega

/-- **A row lists the nodes that trails lead to,** and no others. -/
theorem mem_map_pathsIn :
    m ∈ (pathsIn path row).map (·.2) ↔
      ∃ trail i, Leads row trail ∧ trail.getLast? = some (i, m) := by
  constructor
  · intro hm
    obtain ⟨e, he, rfl⟩ := List.mem_map.mp hm
    exact exists_leads_of_mem he
  · rintro ⟨trail, i, hleads, hlast⟩
    have hhere : (pathBelow (pathAbove path trail) m.name, m) ∈
        m.pathsBelow (pathAbove path trail) := by
      rw [pathsBelow_eq]
      exact List.mem_cons_self
    have htogether : m.pathsBelow (pathAbove path trail) <:+: pathsIn path row :=
      pathsBelow_infix_pathsIn hleads hlast
    exact List.mem_map.mpr ⟨_, htogether.subset hhere, rfl⟩

/-- For a node are listed it and the nodes that trails lead to from it. -/
theorem mem_map_pathsBelow :
    m ∈ (n.pathsBelow path).map (·.2) ↔
      m = n ∨ ∃ trail i, Leads n.child trail ∧ trail.getLast? = some (i, m) := by
  rw [pathsBelow_eq, List.map_cons, List.mem_cons, mem_map_pathsIn]

end Node

/-! ## The tree and its listing -/

/-- **A search finds what is listed first.** What is found in a tree under a
name is the node of the first entry of the listing whose node has that name, and
nothing is found exactly where there is no such entry. From a node of the tree,
to which a trail leads, the same is found as in the part of the listing that is
for this node: it stands together in the listing of the tree, and holds the node
and all nodes below it. -/
theorem search_follows_listing (r : Registry) (name : String) :
    r.find? name = Node.listed? name r.paths ∧
      (r.find? name = none ↔ ∀ e ∈ r.paths, e.2.name ≠ name) ∧
      ∀ trail i n, Node.Leads r.roots trail → trail.getLast? = some (i, n) →
        n.pathsBelow (Node.pathAbove "" trail) <:+: r.paths ∧
        (∀ m, m ∈ (n.pathsBelow (Node.pathAbove "" trail)).map (·.2) ↔
          m = n ∨ ∃ more j, Node.Leads n.child more ∧ more.getLast? = some (j, m)) ∧
        n.find? name = Node.listed? name (n.pathsBelow (Node.pathAbove "" trail)) := by
  have hfound : r.find? name = Node.listed? name r.paths :=
    Node.findIn?_eq_listed? name "" r.roots
  refine ⟨hfound, ?_, fun trail i n hleads hlast => ?_⟩
  · rw [hfound, Node.listed?_eq_none]
  · exact ⟨Node.pathsBelow_infix_pathsIn hleads hlast, fun m => Node.mem_map_pathsBelow,
      Node.find?_eq_listed? name _ n⟩

/-- A feature, and a workflow with a child of the same name. -/
def reprises : Catalogs where
  features := ⟨[.grayscale]⟩
  workflows := ⟨[
    { name := "Reprise", steps := [.feature "GRAYSCALE"],
      child := [{ name := "Grayscale", steps := [.feature "GRAYSCALE"] }] }]⟩

theorem search_follows_listing_reprises :
    ∃ r trail i n, build reprises {} = .ok r ∧ Node.Leads r.roots trail ∧
      trail.getLast? = some (i, n) ∧ n.name = "Reprise" ∧
      r.find? "Grayscale" = Node.listed? "Grayscale" r.paths ∧
      (r.find? "Grayscale").map (·.kind) = some .direct ∧
      n.pathsBelow "Workflows" <:+: r.paths ∧
      n.find? "Grayscale" = Node.listed? "Grayscale" (n.pathsBelow "Workflows") ∧
      (n.find? "Grayscale").map (·.kind) = some .workflow := by
  have hbuild : ∃ r trail i n, build reprises {} = .ok r ∧
      Node.trail? r.roots ["Workflows", "Reprise"] = some trail ∧
      trail.getLast? = some (i, n) ∧ n.name = "Reprise" ∧
      (r.find? "Grayscale").map (·.kind) = some .direct ∧
      (n.find? "Grayscale").map (·.kind) = some .workflow :=
    ⟨_, _, _, _, by cbv, by cbv, by cbv, by cbv, by cbv, by cbv⟩
  obtain ⟨r, trail, i, n, hbuild, htrail, hlast, hname, hfeature, hworkflow⟩ := hbuild
  obtain ⟨hleads, hnames⟩ := (Node.trail?_eq_some (distinct_of_build hbuild)).mp htrail
  obtain ⟨hfound, -, hfrom⟩ := search_follows_listing r "Grayscale"
  obtain ⟨htogether, -, hbelow⟩ := hfrom trail i n hleads hlast
  have habove : Node.pathAbove "" trail = "Workflows" := by
    unfold Node.pathAbove
    rw [hnames]
    rfl
  rw [habove] at htogether hbelow
  exact ⟨r, trail, i, n, hbuild, hleads, hlast, hname, hfound, hfeature, htogether, hbelow,
    hworkflow⟩

end Registry

end MediaPipeline
