import MediaPipeline.Decimal.Binary
/-!
# Json — values

JSON values as they are read and written. A value keeps what later decides
whether it is accepted: integers stay apart from doubles, members keep their
order and their repetitions, and a name remembers whether it was written with
escapes. Two things can be written that no value holds, a number beyond the
range of doubles and half of a surrogate pair; both become `unheld`, and it
is for the reader of that place to refuse it.
-/


namespace MediaPipeline

namespace Json

/-- The name of a member: its text, unless half of a surrogate pair leaves it
without one, and whether an escape was used to write it. -/
structure Name where
  text : Option String
  escaped : Bool := false
  deriving DecidableEq, Repr, Inhabited

/-- A name written as it reads. -/
def Name.plain (s : String) : Name := ⟨some s, false⟩

end Json

/-- A JSON value. -/
inductive Json where
  | null
  | bool (b : Bool)
  | int (n : Int)
  | real (x : Float)
  | unheld
  | text (s : String)
  | array (items : List Json)
  | object (members : List (Json.Name × Json))
  deriving Repr, Inhabited

namespace Json

/-! ## Building values -/

/-- A natural number. -/
def nat (n : Nat) : Json := .int (Int.ofNat n)

/-- An object of members in the given order. -/
def record (members : List (String × Json)) : Json :=
  .object (members.map fun m => (Name.plain m.1, m.2))

/-- A list, item by item. -/
def list {α : Type} (encode : α → Json) (xs : List α) : Json := .array (xs.map encode)

/-- A value that may be absent: null stands for its absence. -/
def option {α : Type} (encode : α → Json) : Option α → Json
  | none => .null
  | some a => encode a

/-- A double; JSON has no text for an infinity or a NaN, and null stands for
them. -/
def float (x : Float) : Json := if Decimal.isFinite x then .real x else .null

/-! ## Depth and soundness -/

mutual

/-- How many containers are nested in a value, itself included. -/
def depth : Json → Nat
  | .array items => itemsDepth items + 1
  | .object members => membersDepth members + 1
  | _ => 0

/-- The greatest depth among the items. -/
def itemsDepth : List Json → Nat
  | [] => 0
  | v :: vs => max v.depth (itemsDepth vs)

/-- The greatest depth among the members. -/
def membersDepth : List (Name × Json) → Nat
  | [] => 0
  | (_, v) :: ms => max v.depth (membersDepth ms)

end

mutual

/-- Whether every part of a value, names included, is held by it. -/
def isHeld : Json → Bool
  | .unheld => false
  | .array items => itemsHeld items
  | .object members => membersHeld members
  | _ => true

/-- Whether every item is held. -/
def itemsHeld : List Json → Bool
  | [] => true
  | v :: vs => v.isHeld && itemsHeld vs

/-- Whether every member is held. -/
def membersHeld : List (Name × Json) → Bool
  | [] => true
  | (name, v) :: ms => name.text.isSome && v.isHeld && membersHeld ms

end

end Json

end MediaPipeline
