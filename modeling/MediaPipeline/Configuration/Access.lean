import MediaPipeline.Configuration.Basic
import MediaPipeline.Error
/-!
# Configuration/Access — values of the expected kind

Reading a value of a kind either gives it or blames the path: for a value
that is missing, for one of another kind, and for a number that is not finite
or not a natural number of thirty-two bits. Optional values may be missing
and are otherwise read the same way.
-/


namespace MediaPipeline

namespace Configuration

/-- A fault of the value at a path. -/
def blame {α : Type} (path : String) (fault : ConfigurationFault) : Except Error α :=
  .error (.configuration path fault)

/-- The value at a path. -/
def value (c : Configuration) (path : String) : Except Error Leaf :=
  match c.get? path with
  | some v => .ok v
  | none => blame path .missing

/-- A value of another kind than the expected one. -/
def mismatch {α : Type} (path expected : String) (v : Leaf) : Except Error α :=
  blame path (.wrongKind expected v.kind v.display)

/-- The number at a path, which is finite. -/
def number (c : Configuration) (path : String) : Except Error Float := do
  match ← c.value path with
  | .number x => if Decimal.isFinite x then .ok x else blame path (.notFinite x)
  | v => mismatch path "number" v

/-- The natural number at a path, which fits thirty-two bits. -/
def natural (c : Configuration) (path : String) : Except Error Nat := do
  let x ← c.number path
  match Decimal.natural? x with
  | some n => if n < Nat.pow 2 32 then .ok n else blame path (.notNatural x)
  | none => blame path (.notNatural x)

/-- The text at a path. -/
def text (c : Configuration) (path : String) : Except Error String := do
  match ← c.value path with
  | .text s => .ok s
  | v => mismatch path "text" v

/-- A value that may be missing, read by `read` where it is there. -/
def optional {α : Type} (c : Configuration) (path : String)
    (read : Configuration → String → Except Error α) : Except Error (Option α) :=
  match c.get? path with
  | none => .ok none
  | some _ => (read c path).map some

end Configuration

end MediaPipeline
