import MediaPipeline.Feature.Basic
/-!
# StepConfigs — configurations by step

The user configures the steps of a plan by their places. A step that was not
configured uses the defaults of its feature. In JSON the places are names:
plain digits, with no sign and no zero before them.
-/


namespace MediaPipeline

/-- Configurations by the places of steps. -/
structure StepConfigs where
  entries : List (Nat × Configuration) := []
  ascending : Table.Ascending entries := by exact Table.ascending_nil

namespace StepConfigs

/-- No step configured. -/
def empty : StepConfigs := {}

instance : Inhabited StepConfigs := ⟨empty⟩

/-- The configurations with one for the step at a place. -/
def insert (s : StepConfigs) (index : Nat) (c : Configuration) : StepConfigs :=
  ⟨Table.insert index c s.entries, s.ascending.insert index c⟩

/-- The configuration for the step at a place. -/
def get? (s : StepConfigs) (index : Nat) : Option Configuration := Table.get? s.entries index

/-- Whether no step is configured. -/
def isEmpty (s : StepConfigs) : Bool := s.entries.isEmpty

/-- The configuration that the step at a place is compiled against: the one
given for it, or the defaults of its feature. -/
def resolve (s : StepConfigs) (index : Nat) (e : Entry) : Except Error Configuration :=
  match (s.get? index).or e.defaults with
  | some c => .ok c
  | none => Configuration.blame e.key (.notGiven index e.name)

/-! ## JSON form -/

/-- Configurations by step as an object. -/
def toJson (s : StepConfigs) : Json :=
  .record (s.entries.map fun e => (toString e.1, e.2.toJson))

/-- The place that a name writes. -/
def index? (name : Json.Name) : Option Nat := do
  let digits ← name.text.map String.toList
  let n := Text.naturalOf digits
  if !name.escaped && Json.isWholePart digits && digits.all Text.isDigit && n < Nat.pow 2 64 then
    some n
  else none

/-- Configurations with one more. -/
def add? (room : Nat) (s : StepConfigs) (m : Json.Name × Json) : Option StepConfigs := do
  let index ← index? m.1
  let c ← Configuration.read? room m.2
  some (s.insert index c)

/-- The configurations that a value writes, with at most `room` objects
nested. -/
def read? : Nat → Json → Option StepConfigs
  | room + 1, .object members => members.foldlM (add? room) empty
  | _, _ => none

/-- The configurations that a value writes. -/
def ofJson? (v : Json) : Option StepConfigs := read? v.depth v

/-- The configurations that a JSON text writes. -/
def ofText (s : String) : Except Error StepConfigs :=
  match (Json.read? s).bind (read? Json.maxDepth) with
  | some configs => .ok configs
  | none => Configuration.blame "<steps>" .unreadableSteps

end StepConfigs

end MediaPipeline
