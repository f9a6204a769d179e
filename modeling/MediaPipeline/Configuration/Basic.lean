import MediaPipeline.Table
import MediaPipeline.Json.Shape
import MediaPipeline.Decimal.Layout
/-!
# Configuration — named scopes with values

A configuration is a tree of scopes. A scope may carry a value, hold further
scopes by name, or both, and names stand in ascending order at every level,
so two configurations with the same values are equal. A place is addressed by
the names on the way to it, joined by dots. `set` puts a value at a path,
`get?` reads one, and `leafPaths` lists the paths that carry a value.
-/


namespace MediaPipeline

/-! ## Values -/

/-- A single value of a configuration. -/
inductive Leaf where
  | bool (b : Bool)
  | number (x : Float)
  | text (s : String)
  deriving DecidableEq, Repr, Inhabited

namespace Leaf

/-- The kind of a value, in words. -/
def kind : Leaf → String
  | .bool _ => "boolean"
  | .number _ => "number"
  | .text _ => "text"

/-- A value as it is shown. -/
def display : Leaf → String
  | .bool b => if b then "true" else "false"
  | .number x => Decimal.plain x
  | .text s => s

/-- A value in JSON. -/
def toJson : Leaf → Json
  | .bool b => .bool b
  | .number x => .float x
  | .text s => .text s

/-- The value that a JSON value is; every number becomes a double. -/
def ofJson? : Json → Option Leaf
  | .bool b => some (.bool b)
  | .int n => some (.number (Float.ofInt n))
  | .real x => some (.number x)
  | .text s => some (.text s)
  | _ => none

end Leaf

/-! ## Scopes -/

/-- A scope: the value it carries and the scopes in it, by name. -/
inductive Scope where
  | mk (value : Option Leaf) (inner : List (String × Scope))
  deriving Repr, Inhabited

namespace Scope

/-- A scope with nothing in it. -/
def empty : Scope := .mk none []

/-- A scope that carries a value only. -/
def leaf (v : Leaf) : Scope := .mk (some v) []

/-- The value that a scope carries. -/
def value : Scope → Option Leaf
  | .mk v _ => v

/-- The scopes in a scope, by name. -/
def inner : Scope → List (String × Scope)
  | .mk _ cs => cs

mutual

/-- Whether names ascend at every level. -/
def Ordered : Scope → Prop
  | .mk _ cs => Table.Ascending cs ∧ AllOrdered cs

/-- Whether each of the scopes is ordered. -/
def AllOrdered : List (String × Scope) → Prop
  | [] => True
  | (_, n) :: rest => n.Ordered ∧ AllOrdered rest

end

theorem ordered_empty : empty.Ordered := ⟨Table.ascending_nil, trivial⟩

theorem ordered_leaf (v : Leaf) : (leaf v).Ordered := ⟨Table.ascending_nil, trivial⟩

/-- A change at one name keeps all scopes ordered if what it puts there
is. -/
theorem allOrdered_alter {k : String} {f : Option Scope → Scope} {cs : List (String × Scope)}
    (h : AllOrdered cs) (hnone : (f none).Ordered)
    (hsome : ∀ n : Scope, n.Ordered → (f (some n)).Ordered) : AllOrdered (Table.alter k f cs) := by
  induction cs with
  | nil => exact ⟨hnone, trivial⟩
  | cons e rest ih =>
    obtain ⟨key, n⟩ := e
    simp only [AllOrdered] at h
    simp only [Table.alter]
    split
    · exact ⟨hnone, h⟩
    · split
      · exact ⟨hsome n h.1, h.2⟩
      · exact ⟨h.1, ih h.2⟩

/-! ## Places -/

/-- The scope that the names lead to. -/
def at? : List String → Scope → Option Scope
  | [], n => some n
  | name :: rest, n => (Table.get? n.inner name).bind (at? rest)

/-- The scope with a value where the names lead to; scopes that are missing
on the way are made. -/
def setAt : List String → Leaf → Scope → Scope
  | [], v, n => .mk (some v) n.inner
  | name :: rest, v, n =>
    .mk n.value (Table.alter name (fun old => setAt rest v (old.getD empty)) n.inner)

theorem setAt_ordered (path : List String) (v : Leaf) {n : Scope} (h : n.Ordered) :
    (setAt path v n).Ordered := by
  induction path generalizing n with
  | nil =>
    cases n
    simp only [setAt, inner, Ordered] at h ⊢
    exact h
  | cons name rest ih =>
    cases n
    simp only [setAt, inner, Ordered] at h ⊢
    exact ⟨h.1.alter _ _, allOrdered_alter h.2 (ih ordered_empty) fun n hn => ih hn⟩

/-- The scope with another scope under a name. -/
def withInner (n : Scope) (name : String) (c : Scope) : Scope :=
  .mk n.value (Table.insert name c n.inner)

theorem withInner_ordered {n c : Scope} (hn : n.Ordered) (name : String) (hc : c.Ordered) :
    (n.withInner name c).Ordered := by
  cases n
  simp only [withInner, inner, Ordered] at hn ⊢
  exact ⟨hn.1.insert _ _, allOrdered_alter hn.2 hc fun _ _ => hc⟩

mutual

/-- The paths below `path` that carry a value, the scope itself first. -/
def leafPaths (path : String) : Scope → List String
  | .mk v cs => (if v.isSome then [path] else []) ++ innerPaths path cs

/-- The paths that carry a value in scopes below `path`. -/
def innerPaths (path : String) : List (String × Scope) → List String
  | [] => []
  | (name, n) :: rest => leafPaths (path ++ "." ++ name) n ++ innerPaths path rest

end

end Scope

/-! ## Configurations -/

/-- A configuration: scopes by name, in order at every level. -/
structure Configuration where
  fields : List (String × Scope)
  ordered : (Scope.mk none fields).Ordered

namespace Configuration

/-- A configuration with nothing in it. -/
def empty : Configuration := ⟨[], Scope.ordered_empty⟩

instance : Inhabited Configuration := ⟨empty⟩

/-- The configuration as one scope. -/
def root (c : Configuration) : Scope := .mk none c.fields

/-- Whether there is nothing in a configuration. -/
def isEmpty (c : Configuration) : Bool := c.fields.isEmpty

/-- The names that a path joins. -/
def segments (path : String) : List String := Text.pieces '.' path

/-- The configuration with a value at a path; scopes that are missing on the
way are made. -/
def set (c : Configuration) (path : String) (v : Leaf) : Configuration :=
  ⟨(c.root.setAt (segments path) v).inner, by
    have h := Scope.setAt_ordered (segments path) v (n := c.root) c.ordered
    generalize c.root.setAt (segments path) v = n at h
    cases n
    exact h⟩

/-- The configuration with a scope under a name, which is not taken apart at
dots. -/
def insert (c : Configuration) (name : String) (n : Scope) (h : n.Ordered) : Configuration :=
  ⟨Table.insert name n c.fields, Scope.withInner_ordered c.ordered name h⟩

/-- The scope at a path. -/
def scope? (c : Configuration) (path : String) : Option Scope := c.root.at? (segments path)

/-- The value at a path. -/
def get? (c : Configuration) (path : String) : Option Leaf := (c.scope? path).bind Scope.value

/-- The paths that carry a value, level by level in the order of names. -/
def leafPaths (c : Configuration) : List String :=
  c.fields.flatMap fun e => Scope.leafPaths e.1 e.2

end Configuration

end MediaPipeline
