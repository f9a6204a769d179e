import MediaPipeline.Proofs.Configuration.Places
/-!
# Configuration/Leaves — which paths carry a value

The paths of a configuration are listed scope by scope. What is listed for a
scope are the ways to its values (`Scope.ways`), each joined by dots
(`leafPaths_eq`): every way leads to a value (`Scope.mem_ways`), and no two ways
are the same, for they stand in the order of names (`Scope.pairwise_ways`).
Joining is undone by taking a path apart at its dots only where no name on the
way has one. So for a tree without dots in its names the paths that are listed
are those that a value is read at, each of them once (`leafPaths_exact`).
-/


namespace MediaPipeline

/-! ## Names joined by dots -/

namespace Configuration

variable {name : String} {names : List String}

/-- The names joined by dots. -/
def dotted (names : List String) : String := String.intercalate "." names

theorem dotted_cons (hne : names ≠ []) : dotted (name :: names) = name ++ "." ++ dotted names :=
  String.intercalate_cons_of_ne_nil hne

/-- It does not matter which names are joined first. -/
theorem dotted_append_cons (path name : String) (names : List String) :
    dotted ((path ++ "." ++ name) :: names) = dotted (path :: name :: names) := by
  rw [dotted_cons (List.cons_ne_nil name names)]
  exact String.intercalate_cons_append

theorem dotted_segments (path : String) : dotted (segments path) = path :=
  Text.intercalate_pieces '.' path

theorem segments_dotted (hne : names ≠ []) (h : ∀ name ∈ names, '.' ∉ name.toList) :
    segments (dotted names) = names :=
  Text.pieces_intercalate hne h

end Configuration

namespace Scope

variable {n m : Scope} {v : Option Leaf} {cs : List (String × Scope)} {name path : String}
variable {way rest : List String}

/-! ## Ways to values -/

mutual

/-- The ways to the values of a scope, level by level in the order of names;
its own value is at the end of the empty way. -/
def ways : Scope → List (List String)
  | .mk v cs => (if v.isSome then [[]] else []) ++ waysIn cs

/-- The ways to the values in scopes by name. -/
def waysIn : List (String × Scope) → List (List String)
  | [] => []
  | (name, n) :: rest => n.ways.map (name :: ·) ++ waysIn rest

end

theorem waysIn_eq_flatMap : waysIn cs = cs.flatMap fun e => e.2.ways.map (e.1 :: ·) := by
  induction cs with
  | nil => rw [waysIn, List.flatMap_nil]
  | cons e rest ih => rw [waysIn, List.flatMap_cons, ih]

theorem innerPaths_eq_flatMap :
    innerPaths path cs = cs.flatMap fun e => leafPaths (path ++ "." ++ e.1) e.2 := by
  induction cs with
  | nil => rw [innerPaths, List.flatMap_nil]
  | cons e rest ih => rw [innerPaths, List.flatMap_cons, ih]

/-- **What is listed for a scope** are the ways to its values, joined to the path
of the scope. -/
theorem leafPaths_eq (path : String) (n : Scope) :
    leafPaths path n = n.ways.map fun way => Configuration.dotted (path :: way) := by
  induction n using below_induction generalizing path with
  | h n ih =>
    obtain ⟨v, cs⟩ := n
    have hinner : innerPaths path cs =
        (waysIn cs).map fun way => Configuration.dotted (path :: way) := by
      rw [innerPaths_eq_flatMap, waysIn_eq_flatMap, List.map_flatMap]
      refine List.flatMap_congr fun e he => ?_
      rw [ih e he, List.map_map]
      exact List.map_congr_left fun way _ => Configuration.dotted_append_cons path e.1 way
    rw [leafPaths, ways, List.map_append, hinner]
    congr 1
    split <;> simp [Configuration.dotted]

theorem nil_notMem_waysIn : [] ∉ waysIn cs := by simp [waysIn_eq_flatMap]

theorem nil_mem_ways : [] ∈ n.ways ↔ n.value.isSome := by
  obtain ⟨v, cs⟩ := n
  rw [ways, List.mem_append, or_iff_left nil_notMem_waysIn]
  cases v <;> simp [value]

theorem cons_mem_ways : name :: rest ∈ n.ways ↔ ∃ m, (name, m) ∈ n.inner ∧ rest ∈ m.ways := by
  obtain ⟨v, cs⟩ := n
  have hhere : name :: rest ∉ (if v.isSome then [[]] else [] : List (List String)) := by
    split <;> simp
  rw [ways, List.mem_append, or_iff_right hhere, waysIn_eq_flatMap]
  simp [inner]

theorem mem_ways_under (hn : n.Ordered) :
    name :: rest ∈ n.ways ↔ rest ∈ (n.under name).ways := by
  rw [cons_mem_ways]
  unfold under
  simp only [← hn.ascending.get?_eq_some]
  cases Table.get? n.inner name with
  | none => simp [empty, ways, waysIn]
  | some m => simp

/-- **The ways of a scope are those that lead to a value.** The induction is over
the way, with the scope general. -/
theorem mem_ways (hn : n.Ordered) : way ∈ n.ways ↔ (n.valueAt? way).isSome := by
  induction way generalizing n with
  | nil => exact nil_mem_ways
  | cons name rest ih => rw [mem_ways_under hn, valueAt?_cons, ih (hn.under name)]

/-- **The ways stand in the order of names.** The empty way stands before all
others, ways through one name are compared behind it, and of two names the
smaller one stands first. -/
theorem pairwise_ways (hn : n.Ordered) : n.ways.Pairwise (· < ·) := by
  induction n using below_induction with
  | h n ih =>
    obtain ⟨v, cs⟩ := n
    obtain ⟨hascending, hbelow⟩ := hn
    have hinner : (waysIn cs).Pairwise (· < ·) := by
      rw [waysIn_eq_flatMap, List.pairwise_flatMap]
      constructor
      · intro e he
        refine List.pairwise_map.mpr ((ih e he (allOrdered_iff.mp hbelow e he)).imp ?_)
        exact fun hlt => List.cons_lt_cons_iff.mpr (.inr ⟨rfl, hlt⟩)
      · refine hascending.imp fun hlt way hway way' hway' => ?_
        obtain ⟨rest, -, rfl⟩ := List.mem_map.mp hway
        obtain ⟨rest', -, rfl⟩ := List.mem_map.mp hway'
        exact List.cons_lt_cons_iff.mpr (.inl hlt)
    rw [ways]
    split
    · refine List.pairwise_cons.mpr ⟨fun way hway => ?_, hinner⟩
      cases way with
      | nil => exact absurd hway nil_notMem_waysIn
      | cons name rest => exact List.nil_lt_cons name rest
    · exact hinner

/-! ## Names without dots -/

/-- A scope without a dot in the names of the scopes in it. -/
def DotFree (n : Scope) : Prop := ∀ name ∈ Table.keys n.inner, '.' ∉ name.toList

theorem not_dot_of_mem_ways (h : n.Throughout DotFree) (hway : way ∈ n.ways) :
    ∀ name ∈ way, '.' ∉ name.toList := by
  induction way generalizing n with
  | nil => exact fun name hname => absurd hname List.not_mem_nil
  | cons name rest ih =>
    obtain ⟨m, hm, hrest⟩ := cons_mem_ways.mp hway
    obtain ⟨hhere, hbelow⟩ := throughout_iff.mp h
    exact List.forall_mem_cons.mpr ⟨hhere name (List.mem_map_of_mem hm), ih (hbelow _ hm) hrest⟩

theorem throughout_dotFree_empty : empty.Throughout DotFree :=
  throughout_iff.mpr ⟨by simp [DotFree, empty, inner, Table.keys], by simp [empty, inner]⟩

/-- A value under names without dots brings no dot into a scope. -/
theorem throughout_dotFree_setAt (hn : n.Throughout DotFree)
    (hway : ∀ name ∈ way, '.' ∉ name.toList) (v : Leaf) :
    (setAt way v n).Throughout DotFree := by
  induction way generalizing n with
  | nil =>
    obtain ⟨hhere, hbelow⟩ := throughout_iff.mp hn
    exact throughout_iff.mpr ⟨hhere, hbelow⟩
  | cons name rest ih =>
    obtain ⟨hname, hrest⟩ := List.forall_mem_cons.mp hway
    obtain ⟨hhere, hbelow⟩ := throughout_iff.mp hn
    refine throughout_iff.mpr ⟨fun other hother => ?_, ?_⟩
    · rcases Table.mem_keys_alter.mp hother with rfl | hother
      · exact hname
      · exact hhere other hother
    · refine Table.forall_mem_alter hbelow (ih throughout_dotFree_empty hrest) fun m hm => ?_
      exact ih hm hrest

end Scope

/-! ## What is listed -/

namespace Configuration

variable {c : Configuration} {path : String}

/-- **What is listed for a configuration** are the ways to its values, joined by
dots. -/
theorem leafPaths_eq (c : Configuration) : c.leafPaths = c.root.ways.map dotted := by
  show (c.fields.flatMap fun e => Scope.leafPaths e.1 e.2) = (Scope.waysIn c.fields).map dotted
  rw [Scope.waysIn_eq_flatMap, List.map_flatMap]
  refine List.flatMap_congr fun e _ => ?_
  rw [Scope.leafPaths_eq, List.map_map]
  rfl

/-- Where a value is read, its path is listed. -/
theorem mem_leafPaths_of_get? (h : (c.get? path).isSome) : path ∈ c.leafPaths := by
  rw [leafPaths_eq]
  exact List.mem_map.mpr ⟨segments path, (Scope.mem_ways c.ordered).mpr h, dotted_segments path⟩

/-- A configuration without a dot in its names, at any depth. -/
def DotFree (c : Configuration) : Prop := c.root.Throughout Scope.DotFree

/-- No value is at the root, so a way to one has a name. -/
theorem ne_nil_of_mem_ways {way : List String} (h : way ∈ c.root.ways) : way ≠ [] := by
  rintro rfl
  exact absurd (Scope.nil_mem_ways.mp h) Bool.false_ne_true

theorem segments_dotted_of_mem_ways (hfree : c.DotFree) {way : List String}
    (h : way ∈ c.root.ways) : segments (dotted way) = way :=
  segments_dotted (ne_nil_of_mem_ways h) (Scope.not_dot_of_mem_ways hfree h)

/-- Putting a value brings no dot into the names. -/
theorem dotFree_set (h : c.DotFree) (path : String) (v : Leaf) : (c.set path v).DotFree := by
  unfold DotFree
  rw [root_set]
  exact Scope.throughout_dotFree_setAt h (fun _ => Text.not_mem_of_mem_pieces) v

/-- **The paths that are listed are those that carry a value,** each of them
once, in every configuration without dots in its names; and every configuration
that values are put into one after the other is such. -/
theorem leafPaths_exact :
    (∀ c : Configuration, c.DotFree →
      (∀ path, path ∈ c.leafPaths ↔ (c.get? path).isSome) ∧ c.leafPaths.Nodup) ∧
    ∀ values : List (String × Leaf), (values.foldl (fun c e => c.set e.1 e.2) empty).DotFree := by
  refine ⟨fun c hfree => ⟨fun path => ⟨fun hlisted => ?_, mem_leafPaths_of_get?⟩, ?_⟩,
    fun values => ?_⟩
  · rw [leafPaths_eq] at hlisted
    obtain ⟨way, hway, rfl⟩ := List.mem_map.mp hlisted
    rw [get?_eq_valueAt?, segments_dotted_of_mem_ways hfree hway]
    exact (Scope.mem_ways c.ordered).mp hway
  · rw [leafPaths_eq]
    refine List.Nodup.map_on (fun way hway way' hway' heq => ?_)
      ((Scope.pairwise_ways c.ordered).imp ne_of_lt)
    rw [← segments_dotted_of_mem_ways hfree hway, heq, segments_dotted_of_mem_ways hfree hway']
  · exact List.foldlRecOn (motive := DotFree) values _ Scope.throughout_dotFree_empty
      fun c hfree e _ => dotFree_set hfree e.1 e.2

/-- Values on one way, the last of them under an empty name. -/
def nested : List (String × Leaf) :=
  [("CROP.", .bool true), ("CROP.SIZE.WIDTH", .number 640), ("CROP", .text "top")]

theorem leafPaths_exact_nested :
    ∃ c, c = nested.foldl (fun c e => c.set e.1 e.2) empty ∧ c.DotFree ∧
      "CROP" ∈ c.leafPaths ∧ "CROP." ∈ c.leafPaths ∧ "CROP.SIZE" ∉ c.leafPaths ∧
      c.leafPaths.Nodup := by
  have hfree := leafPaths_exact.2 nested
  obtain ⟨hlisted, hnodup⟩ := leafPaths_exact.1 _ hfree
  refine ⟨_, rfl, hfree, (hlisted _).mpr rfl, (hlisted _).mpr rfl, fun h => ?_, hnodup⟩
  exact absurd ((hlisted _).mp h) (by decide)

end Configuration

end MediaPipeline
