import MediaPipeline.Json.Reader
/-!
# Json/Shape — values of the expected shape

What a place accepts: a text, a truth value, a natural number within a
number of bits, a list, a name out of a fixed set, or a record. A record is
written as an object or as the list of its fields in order; unknown members
are skipped without a look at their values, a repeated member is refused, and
so is a list with too many items.
-/


namespace MediaPipeline

namespace Json

variable {α : Type}

/-! ## Plain shapes -/

/-- The text that a value is. -/
def text? : Json → Option String
  | .text s => some s
  | _ => none

/-- The truth value that a value is. -/
def bool? : Json → Option Bool
  | .bool b => some b
  | _ => none

/-- The natural number below `2 ^ bits` that a value is. -/
def nat? (bits : Nat) : Json → Option Nat
  | .int (.ofNat n) => if n < Nat.pow 2 bits then some n else none
  | _ => none

/-- Whether a value is a list. -/
def isList : Json → Bool
  | .array _ => true
  | _ => false

/-- The list that a value is, item by item. -/
def list? (decode : Json → Option α) : Json → Option (List α)
  | .array items => items.mapM decode
  | _ => none

/-- The value that may be absent, written as null where it is. -/
def option? (decode : Json → Option α) : Json → Option (Option α)
  | .null => some none
  | v => (decode v).map some

/-- The name that a value is out of a set of names: a text, or an object
whose one member has that name and holds null, where there is room for one
object. -/
def choice? (room : Nat) : Json → Option String
  | .text s => some s
  | .object [(name, .null)] => if room = 0 then none else name.text
  | _ => none

/-! ## Records -/

/-- The fields of a record that were given. -/
abbrev Fields := List (String × Json)

/-- The members of an object with one of the given names, if every name can
be read and no given name is repeated. -/
def known? (names : List String) : List (Name × Json) → Option Fields
  | [] => some []
  | (name, v) :: rest => do
    let s ← name.text
    let others ← known? names rest
    if names.contains s then
      if others.any (·.1 == s) then none else some ((s, v) :: others)
    else some others

/-- The fields of a record with the given field names. -/
def fields? (names : List String) : Json → Option Fields
  | .array items => if items.length ≤ names.length then some (names.zip items) else none
  | .object members => known? names members
  | _ => none

namespace Fields

/-- The value given for a field. -/
def find? (fields : Fields) (name : String) : Option Json :=
  (List.find? (·.1 == name) fields).map (·.2)

/-- A field that must be given. -/
def required (fields : Fields) (name : String) (decode : Json → Option α) : Option α :=
  (fields.find? name).bind decode

/-- A field that has a default. -/
def withDefault (fields : Fields) (name : String) (default : α) (decode : Json → Option α) :
    Option α :=
  match fields.find? name with
  | none => some default
  | some v => decode v

end Fields

end Json

end MediaPipeline
