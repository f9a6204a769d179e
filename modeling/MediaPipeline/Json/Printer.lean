import MediaPipeline.Json.Basic
import MediaPipeline.Decimal.Layout
/-!
# Json/Printer — values to text

Two layouts of one text: `compact` leaves out every blank, `pretty` puts each
item and member on a line of its own, two blanks deeper than its container.
In a quoted text only the quote, the backslash and the control characters are
escaped.
-/


namespace MediaPipeline

namespace Json

/-! ## Quoted texts -/

/-- A character as it stands between quotes. -/
def escapeChar (c : Char) : List Char :=
  if c = '"' then ['\\', '"']
  else if c = '\\' then ['\\', '\\']
  else if c = '\n' then ['\\', 'n']
  else if c = '\r' then ['\\', 'r']
  else if c = '\t' then ['\\', 't']
  else if c.toNat = 8 then ['\\', 'b']
  else if c.toNat = 12 then ['\\', 'f']
  else if c.toNat < 0x20 then
    ['\\', 'u', '0', '0', Nat.digitChar (c.toNat / 16), Nat.digitChar (c.toNat % 16)]
  else [c]

/-- A text between quotes. -/
def quoted (s : String) : String :=
  "\"" ++ String.ofList (s.toList.flatMap escapeChar) ++ "\""

/-- A value without parts; a value that is not held has no text of its
own. -/
def scalarText : Json → String
  | .bool b => if b then "true" else "false"
  | .int n => toString n
  | .real x => (Decimal.json? x).getD "null"
  | .text s => quoted s
  | _ => "null"

/-- The text of a member's name. -/
def Name.quoted (name : Name) : String := Json.quoted (name.text.getD "")

/-! ## Without blanks -/

mutual

/-- The text of a value, without blanks. -/
def compact : Json → String
  | .array items => "[" ++ String.intercalate "," (compactItems items) ++ "]"
  | .object members => "\x7b" ++ String.intercalate "," (compactMembers members) ++ "\x7d"
  | v => scalarText v

/-- The texts of items. -/
def compactItems : List Json → List String
  | [] => []
  | v :: vs => compact v :: compactItems vs

/-- The texts of members. -/
def compactMembers : List (Name × Json) → List String
  | [] => []
  | (name, v) :: ms => (name.quoted ++ ":" ++ compact v) :: compactMembers ms

end

/-! ## One part to a line -/

/-- The blanks before a line at a depth. -/
def indentation (depth : Nat) : String := String.ofList (List.replicate (2 * depth) ' ')

/-- Parts on lines of their own between two marks; nothing stays on one
line. -/
def block (depth : Nat) (opening closing : String) (parts : List String) : String :=
  if parts.isEmpty then opening ++ closing
  else
    opening ++ "\n" ++
      String.intercalate ",\n" (parts.map (indentation (depth + 1) ++ ·)) ++
      "\n" ++ indentation depth ++ closing

mutual

/-- The text of a value inside `depth` containers, one part to a line. -/
def prettyAt (depth : Nat) : Json → String
  | .array items => block depth "[" "]" (prettyItems (depth + 1) items)
  | .object members => block depth "\x7b" "\x7d" (prettyMembers (depth + 1) members)
  | v => scalarText v

/-- The texts of items. -/
def prettyItems (depth : Nat) : List Json → List String
  | [] => []
  | v :: vs => prettyAt depth v :: prettyItems depth vs

/-- The texts of members. -/
def prettyMembers (depth : Nat) : List (Name × Json) → List String
  | [] => []
  | (name, v) :: ms => (name.quoted ++ ": " ++ prettyAt depth v) :: prettyMembers depth ms

end

/-- The text of a value, one part to a line. -/
def pretty (v : Json) : String := prettyAt 0 v

end Json

end MediaPipeline
