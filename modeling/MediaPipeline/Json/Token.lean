import MediaPipeline.Json.Basic
import MediaPipeline.Decimal.Numeral
/-!
# Json/Token — the words of a JSON text

A JSON text is a row of marks, quoted texts and bare words, with blanks
between them. It is read in one pass over its characters by a machine that is
between two words, inside a bare word, or inside a quoted text; a bare word
is the longest run of letters, digits, signs and points, and must be a number
or one of the three names.
-/


namespace MediaPipeline

namespace Json

/-- A word of a JSON text. -/
inductive Token where
  | openArray
  | closeArray
  | openObject
  | closeObject
  | comma
  | colon
  | scalar (v : Json)
  | quoted (name : Name)
  deriving Repr, Inhabited

/-! ## Bare words -/

/-- The digits before the point of a number: a lone zero, or digits that do
not start with one. -/
def isWholePart (digits : List Char) : Bool :=
  match digits with
  | [] => false
  | ['0'] => true
  | '0' :: _ => false
  | _ => true

/-- A whole number: an integer where sixty-four bits hold it, signed if it is
negative, and the nearest double otherwise. A negative zero is a double. -/
def wholeNumber (negative : Bool) (digits : List Char) : Json :=
  let n := Text.naturalOf digits
  if !negative && decide (n < Nat.pow 2 64) then .int (Int.ofNat n)
  else if negative && decide (0 < n) && decide (n ≤ Nat.pow 2 63) then .int (-Int.ofNat n)
  else
    let x := Decimal.nearest negative n 0
    if Decimal.isFinite x then .real x else .unheld

/-- A number with a point or an exponent: the nearest double. -/
def realNumber (negative : Bool) (digits : List Char) (exponent : Int) : Json :=
  let x := Decimal.nearest negative (Text.naturalOf digits) exponent
  if Decimal.isFinite x then .real x else .unheld

/-- A number after its sign. -/
def unsignedNumber? (negative : Bool) (cs : List Char) : Option Json :=
  let whole := cs.takeWhile Text.isDigit
  if !isWholePart whole then none
  else
    match cs.dropWhile Text.isDigit with
    | [] => some (wholeNumber negative whole)
    | '.' :: rest =>
      let fraction := rest.takeWhile Text.isDigit
      if fraction.isEmpty then none
      else do
        let e ← Decimal.exponentOrEnd? (rest.dropWhile Text.isDigit)
        some (realNumber negative (whole ++ fraction) (e - Int.ofNat fraction.length))
    | rest => do
      let e ← Decimal.exponentOrEnd? rest
      some (realNumber negative whole e)

/-- The value that a bare word names or writes. -/
def bareWord? (word : String) : Option Json :=
  if word = "null" then some .null
  else if word = "true" then some (.bool true)
  else if word = "false" then some (.bool false)
  else
    match word.toList with
    | '-' :: rest => unsignedNumber? true rest
    | cs => unsignedNumber? false cs

/-! ## Quoted texts -/

/-- A quoted text as far as it was read: its characters with the last one
first, a leading half of a surrogate pair that still waits for the other, and
whether a half was left alone. -/
structure Quote where
  done : List Char := []
  half : Option Nat := none
  broken : Bool := false
  escaped : Bool := false

namespace Quote

/-- One character more; a half that waited is left alone. -/
def push (q : Quote) (c : Char) : Quote :=
  { q with done := c :: q.done, half := none, broken := q.broken || q.half.isSome }

/-- One escaped code unit more: a trailing half completes a leading half
directly before it. -/
def pushUnit (q : Quote) (unit : Nat) : Quote :=
  if 0xd800 ≤ unit ∧ unit < 0xdc00 then
    { q with half := some unit, broken := q.broken || q.half.isSome }
  else if 0xdc00 ≤ unit ∧ unit < 0xe000 then
    match q.half with
    | some high =>
      { q with
        done := Char.ofNat (0x10000 + (high - 0xd800) * 0x400 + (unit - 0xdc00)) :: q.done
        half := none }
    | none => { q with broken := true }
  else q.push (Char.ofNat unit)

/-- The name that was written, once its closing mark is met. -/
def finish (q : Quote) : Name :=
  if q.broken || q.half.isSome then ⟨none, q.escaped⟩
  else ⟨some (String.ofList q.done.reverse), q.escaped⟩

end Quote

/-- The character that a short escape writes. -/
def shortEscape? (c : Char) : Option Char :=
  match c with
  | '"' => some '"'
  | '\\' => some '\\'
  | '/' => some '/'
  | 'b' => some (Char.ofNat 8)
  | 'f' => some (Char.ofNat 12)
  | 'n' => some '\n'
  | 'r' => some '\r'
  | 't' => some '\t'
  | _ => none

/-! ## The machine -/

/-- Where the machine stands. -/
inductive Place where
  | between
  | word (letters : List Char)
  | inside (q : Quote)
  | escape (q : Quote)
  | unit (q : Quote) (value : Nat) (missing : Nat)

/-- The tokens so far, the last one first, and the place of the machine. -/
structure Scanner where
  tokens : List Token := []
  place : Place := .between

namespace Scanner

/-- Whether a character may stand in a bare word. -/
def isWordChar (c : Char) : Bool :=
  c.isAlphanum || c == '+' || c == '-' || c == '.'

/-- The mark that a character is, if it is one. -/
def mark? (c : Char) : Option Token :=
  match c with
  | '[' => some .openArray
  | ']' => some .closeArray
  | '{' => some .openObject
  | '}' => some .closeObject
  | ',' => some .comma
  | ':' => some .colon
  | _ => none

/-- Whether a character is one of the four blanks of JSON. -/
def isGap (c : Char) : Bool := c == ' ' || c == '\t' || c == '\n' || c == '\r'

/-- A character met between two words. -/
def stepBetween (tokens : List Token) (c : Char) : Option Scanner :=
  if isGap c then some ⟨tokens, .between⟩
  else if c == '"' then some ⟨tokens, .inside {}⟩
  else if isWordChar c then some ⟨tokens, .word [c]⟩
  else (mark? c).map fun t => ⟨t :: tokens, .between⟩

/-- The tokens with the bare word that has ended. -/
def endWord (tokens : List Token) (letters : List Char) : Option (List Token) :=
  (bareWord? (String.ofList letters.reverse)).map fun v => .scalar v :: tokens

/-- One character more. -/
def step (s : Scanner) (c : Char) : Option Scanner :=
  match s.place with
  | .between => stepBetween s.tokens c
  | .word letters =>
    if isWordChar c then some ⟨s.tokens, .word (c :: letters)⟩
    else (endWord s.tokens letters).bind fun tokens => stepBetween tokens c
  | .inside q =>
    if c == '"' then some ⟨.quoted q.finish :: s.tokens, .between⟩
    else if c == '\\' then some ⟨s.tokens, .escape { q with escaped := true }⟩
    else if c.toNat < 0x20 then none
    else some ⟨s.tokens, .inside (q.push c)⟩
  | .escape q =>
    if c == 'u' then some ⟨s.tokens, .unit q 0 4⟩
    else (shortEscape? c).map fun d => ⟨s.tokens, .inside (q.push d)⟩
  | .unit q value missing => do
    let digit ← Text.hexValue? c
    let value' := value * 16 + digit
    if missing ≤ 1 then some ⟨s.tokens, .inside (q.pushUnit value')⟩
    else some ⟨s.tokens, .unit q value' (missing - 1)⟩

/-- The tokens in order, once the text has ended between two words. -/
def finish? (s : Scanner) : Option (List Token) :=
  match s.place with
  | .between => some s.tokens.reverse
  | .word letters => (endWord s.tokens letters).map List.reverse
  | _ => none

end Scanner

/-- The tokens of a text, if it consists of tokens. -/
def tokens? (s : String) : Option (List Token) :=
  (s.toList.foldlM Scanner.step {}).bind Scanner.finish?

end Json

end MediaPipeline
