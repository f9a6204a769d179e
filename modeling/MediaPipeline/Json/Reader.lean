import MediaPipeline.Json.Token
/-!
# Json/Reader — tokens to values

Tokens become a value in one pass, with a stack of the containers that are
open. Strictness is in the places: after an opening mark a container may
close at once, after a comma it may not, and nothing follows the outermost
value.
-/


namespace MediaPipeline

namespace Json

/-- An open container with its finished parts, the last one first; in an
object the name of the part to come stands beside them. -/
inductive Frame where
  | items (done : List Json)
  | members (done : List (Name × Json)) (name : Name)

/-- What may come next. -/
inductive Expected where
  | value
  | valueOrClose
  | name (done : List (Name × Json))
  | nameOrClose
  | colon (done : List (Name × Json)) (name : Name)
  | separator (v : Json)

/-- What may come next, inside the containers that are open. -/
structure Reader where
  expected : Expected := .value
  frames : List Frame := []

namespace Reader

/-- A finished value is followed by a separator, a closing mark or the end. -/
def complete (v : Json) (frames : List Frame) : Reader := ⟨.separator v, frames⟩

/-- A token where a value must come. -/
def startValue (frames : List Frame) (t : Token) : Option Reader :=
  match t with
  | .openArray => some ⟨.valueOrClose, .items [] :: frames⟩
  | .openObject => some ⟨.nameOrClose, frames⟩
  | .scalar v => some (complete v frames)
  | .quoted name =>
    some (complete (match name.text with | some s => .text s | none => .unheld) frames)
  | _ => none

/-- A token after a finished value. -/
def afterValue (v : Json) (frames : List Frame) (t : Token) : Option Reader :=
  match frames, t with
  | .items done :: outer, .comma => some ⟨.value, .items (v :: done) :: outer⟩
  | .items done :: outer, .closeArray => some (complete (.array (v :: done).reverse) outer)
  | .members done name :: outer, .comma => some ⟨.name ((name, v) :: done), outer⟩
  | .members done name :: outer, .closeObject =>
    some (complete (.object ((name, v) :: done).reverse) outer)
  | _, _ => none

/-- One token more. -/
def step (r : Reader) (t : Token) : Option Reader :=
  match r.expected, t with
  | .value, _ => startValue r.frames t
  | .valueOrClose, .closeArray => some (complete (.array []) (r.frames.drop 1))
  | .valueOrClose, _ => startValue r.frames t
  | .nameOrClose, .closeObject => some (complete (.object []) r.frames)
  | .nameOrClose, .quoted name => some ⟨.colon [] name, r.frames⟩
  | .name done, .quoted name => some ⟨.colon done name, r.frames⟩
  | .colon done name, .colon => some ⟨.value, .members done name :: r.frames⟩
  | .separator v, _ => afterValue v r.frames t
  | _, _ => none

/-- The value that was read, once nothing is open. -/
def finish? (r : Reader) : Option Json :=
  match r.expected, r.frames with
  | .separator v, [] => some v
  | _, _ => none

end Reader

/-- The value that a text writes, if it is a JSON text. -/
def read? (s : String) : Option Json := do
  let tokens ← tokens? s
  let reader ← tokens.foldlM Reader.step {}
  reader.finish?

/-- The number of containers that may be nested in a text where every one of
them is entered. -/
def maxDepth : Nat := 127

end Json

end MediaPipeline
