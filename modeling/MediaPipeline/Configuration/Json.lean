import MediaPipeline.Configuration.Access
/-!
# Configuration/Json — configurations as JSON

A scope is an object: its member `value` is the value it carries, every other
member is a scope in it. A configuration is an object of scopes. In reading,
a repeated `value` is refused, and of other members with the same name the
last one counts, though each must be a scope.
-/


namespace MediaPipeline

namespace Scope

/-- The name of the member that holds the value of a scope. -/
def valueName : String := "value"

/-! ## Writing -/

/-- The member for the value of a scope. -/
def valueMembers : Option Leaf → List (Json.Name × Json)
  | none => []
  | some v => [(.plain valueName, v.toJson)]

mutual

/-- A scope as an object. -/
def toJson : Scope → Json
  | .mk v cs => .object (valueMembers v ++ innerJson cs)

/-- The members for the scopes in a scope. -/
def innerJson : List (String × Scope) → List (Json.Name × Json)
  | [] => []
  | (name, n) :: rest => (.plain name, n.toJson) :: innerJson rest

end

/-! ## Reading -/

/-- A scope whose names are in order at every level. -/
abbrev Sound : Type := { n : Scope // n.Ordered }

/-- A scope with its value still open: it was not given yet, or it was given
and may be null. -/
structure Draft where
  value : Option (Option Leaf) := none
  scope : Sound := ⟨.empty, ordered_empty⟩

/-- A draft with one member more. -/
def Draft.add? (readScope : Json → Option Sound) (d : Draft) (m : Json.Name × Json) :
    Option Draft := do
  let name ← m.1.text
  if name = valueName then
    if d.value.isSome then none
    else do
      let v ← Json.option? Leaf.ofJson? m.2
      some { d with value := some v }
  else do
    let n ← readScope m.2
    some { d with
      scope := ⟨d.scope.1.withInner name n.1, withInner_ordered d.scope.2 name n.2⟩ }

/-- The scope of a draft, with its value. -/
def Draft.finish (d : Draft) : Sound :=
  ⟨.mk (d.value.getD none) d.scope.1.inner, by
    obtain ⟨n, hn⟩ := d.scope
    cases n
    exact hn⟩

/-- The scope that a value writes, with at most `room` objects nested. -/
def read? : Nat → Json → Option Sound
  | 0, _ => none
  | room + 1, .object members =>
    (members.foldlM (Draft.add? (fun v => read? room v)) {}).map Draft.finish
  | _ + 1, _ => none

/-- The scope that a value writes. -/
def ofJson? (v : Json) : Option Sound := read? v.depth v

/-- The scope that a JSON text writes. -/
def ofText? (s : String) : Option Sound := (Json.read? s).bind (read? Json.maxDepth)

end Scope

namespace Configuration

/-- A configuration as an object. -/
def toJson (c : Configuration) : Json := .object (Scope.innerJson c.fields)

/-- A configuration with one scope more. -/
def add? (readScope : Json → Option Scope.Sound) (c : Configuration) (m : Json.Name × Json) :
    Option Configuration := do
  let name ← m.1.text
  let n ← readScope m.2
  some (c.insert name n.1 n.2)

/-- The configuration that a value writes, with at most `room` objects
nested. -/
def read? : Nat → Json → Option Configuration
  | room + 1, .object members => members.foldlM (add? (Scope.read? room)) empty
  | _, _ => none

/-- The configuration that a value writes. -/
def ofJson? (v : Json) : Option Configuration := read? v.depth v

/-- The configuration that a JSON text writes. -/
def ofText (s : String) : Except Error Configuration :=
  match (Json.read? s).bind (read? Json.maxDepth) with
  | some c => .ok c
  | none => blame "<root>" .unreadable

end Configuration

end MediaPipeline
