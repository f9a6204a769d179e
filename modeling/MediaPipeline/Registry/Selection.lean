import MediaPipeline.Json.Shape
import MediaPipeline.Text
/-!
# Registry/Selection — a command as the user chooses it

A selection names a command by its path and may go on through children by
their indices. The names in a path stand between slashes; blanks around a
name do not count, and names that are empty without them are skipped.
-/


namespace MediaPipeline

/-- A command by its path, and the children to go on with. -/
structure Selection where
  path : String
  child : List Nat := []
  deriving DecidableEq, Repr, Inhabited

namespace Selection

/-- The names that a path holds. -/
def segments (path : String) : List String :=
  ((Text.pieces '/' path).map Text.trim).filter (· ≠ "")

/-- A selection as a record; no children to go on with are left out. -/
def toJson (s : Selection) : Json :=
  .record (("path", .text s.path) ::
    if s.child.isEmpty then [] else [("child", .list Json.nat s.child)])

/-- The selection that a value writes. -/
def ofJson? (v : Json) : Option Selection := do
  let fields ← v.fields? ["path", "child"]
  let path ← fields.required "path" Json.text?
  let child ← fields.withDefault "child" [] (Json.list? (Json.nat? 64))
  some ⟨path, child⟩

/-- The selection that a JSON text writes. -/
def ofText? (s : String) : Option Selection := (Json.read? s).bind ofJson?

end Selection

end MediaPipeline
