import MediaPipeline.Text
/-!
# Decimal/Numeral — text read as a double

A numeral is a sign, digits with at most one point, and an exponent. The
double it stands for is the nearest one, a tie going to the even one; a
numeral beyond the range of doubles stands for an infinity.
-/


namespace MediaPipeline

namespace Decimal

/-- A numeral taken apart: it stands for `digits · 10 ^ exponent` up to its
sign. -/
structure Numeral where
  negative : Bool
  digits : List Char
  exponent : Int
  deriving DecidableEq, Repr

/-- The double nearest to `± m · 10 ^ e`. The exponent is compared with the
range of doubles first, so that no power beyond it is ever computed. -/
def nearest (negative : Bool) (m : Nat) (e : Int) : Float :=
  let length := Int.ofNat (toString m).length
  let magnitude : Float :=
    if m = 0 then 0.0
    else if length + e > 400 then 1.0 / 0.0
    else if length + e < -400 then 0.0
    else if 0 ≤ e then Float.ofScientific m false e.toNat
    else Float.ofScientific m true (-e).toNat
  if negative then -magnitude else magnitude

/-- The double that a numeral stands for. -/
def Numeral.value (n : Numeral) : Float :=
  nearest n.negative (Text.naturalOf n.digits) n.exponent

/-- The exponent after its mark: an optional sign and at least one digit, and
nothing more. -/
def exponent? (cs : List Char) : Option Int :=
  let (negative, digits) :=
    match cs with
    | '-' :: rest => (true, rest)
    | '+' :: rest => (false, rest)
    | _ => (false, cs)
  if digits.isEmpty || !digits.all Text.isDigit then none
  else
    let n := Int.ofNat (Text.naturalOf digits)
    some (if negative then -n else n)

/-- An exponent with its mark, or the end of the numeral. -/
def exponentOrEnd? : List Char → Option Int
  | [] => some 0
  | c :: cs => if c = 'e' ∨ c = 'E' then exponent? cs else none

/-- A numeral without its sign: digits with an optional point, at least one
digit in all, and an optional exponent. -/
def unsigned? (negative : Bool) (cs : List Char) : Option Numeral :=
  let whole := cs.takeWhile Text.isDigit
  match cs.dropWhile Text.isDigit with
  | '.' :: rest =>
    let fraction := rest.takeWhile Text.isDigit
    if whole.isEmpty && fraction.isEmpty then none
    else do
      let e ← exponentOrEnd? (rest.dropWhile Text.isDigit)
      some ⟨negative, whole ++ fraction, e - Int.ofNat fraction.length⟩
  | rest =>
    if whole.isEmpty then none
    else do
      let e ← exponentOrEnd? rest
      some ⟨negative, whole, e⟩

/-- The double that an unsigned text names or writes. -/
def magnitude? (negative : Bool) (cs : List Char) : Option Float :=
  let name := (String.ofList cs).toLower
  if name = "inf" ∨ name = "infinity" then
    some (if negative then -(1.0 / 0.0) else 1.0 / 0.0)
  else if name = "nan" then some (0.0 / 0.0)
  else (unsigned? negative cs).map Numeral.value

/-- The double that a text writes: an optional sign, then a numeral or the
name of an infinity or of no number, in any letter case. -/
def float? (s : String) : Option Float :=
  match s.toList with
  | '-' :: rest => magnitude? true rest
  | '+' :: rest => magnitude? false rest
  | cs => magnitude? false cs

end Decimal

end MediaPipeline
