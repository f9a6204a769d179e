import MediaPipeline.Decimal.Shortest
/-!
# Decimal/Layout — doubles as text

Three texts of a double: `plain` writes the shortest digits without an
exponent, however many zeros that takes; `fixed` rounds to a number of
places, a tie to the even neighbour; `scientific` is the form of numbers in
written JSON, which always shows that the number is a double.
-/


namespace MediaPipeline

namespace Decimal

/-- The text of a value whose sign is written as a minus. -/
def signed (negative : Bool) (s : String) : String :=
  if negative then "-" ++ s else s

/-- A run of zeros. -/
def zeros (n : Nat) : String := String.ofList (List.replicate n '0')

/-- The digits with a point before the last `places` of them, filled up with
zeros on the left. -/
def pointed (digits : String) (places : Nat) : String :=
  let filled := zeros (places + 1 - digits.length) ++ digits
  let cut := filled.length - places
  String.ofList (filled.toList.take cut) ++ "." ++ String.ofList (filled.toList.drop cut)

/-- A decimal number without an exponent. -/
def Scientific.plain (s : Scientific) : String :=
  if s.exponent ≥ 0 then toString s.digits ++ zeros s.exponent.toNat
  else pointed (toString s.digits) (-s.exponent).toNat

/-- The text of a double: the fewest digits that read back, never an
exponent, no point in a whole number, and a minus also before zero. -/
def plain (x : Float) : String :=
  match parts x with
  | .notANumber => "NaN"
  | .infinite negative => signed negative "inf"
  | .finite negative m q =>
    signed negative (if m = 0 then "0" else (shortest m q).plain)

/-- The quotient rounded to the nearest natural number, a tie to the even
one. -/
def roundToEven (num den : Nat) : Nat :=
  let below := num / den
  let twice := 2 * (num % den)
  if twice < den then below
  else if twice > den then below + 1
  else if below % 2 = 0 then below
  else below + 1

/-- The text of a double rounded to `places` places after the point. -/
def fixed (places : Nat) (x : Float) : String :=
  match parts x with
  | .notANumber => "NaN"
  | .infinite negative => signed negative "inf"
  | .finite negative m q =>
    let r := Ratio.ofBinary m q
    let scaled := toString (roundToEven (r.num * Nat.pow 10 places) r.den)
    signed negative (if places = 0 then scaled else pointed scaled places)

/-- A decimal number in JSON form: positional with a point while its first
digit stands between the fifth place after the point and the sixteenth before
it, and with an exponent beyond. -/
def Scientific.json (s : Scientific) : String :=
  let digits := toString s.digits
  let point : Int := Int.ofNat digits.length + s.exponent
  if 0 ≤ s.exponent ∧ point ≤ 16 then digits ++ zeros s.exponent.toNat ++ ".0"
  else if s.exponent < 0 ∧ -5 < point ∧ point ≤ 16 then pointed digits (-s.exponent).toNat
  else
    let mantissa := if digits.length = 1 then digits else pointed digits (digits.length - 1)
    mantissa ++ "e" ++ toString (point - 1)

/-- The text of a finite double in JSON; other doubles have none there. -/
def json? (x : Float) : Option String :=
  match parts x with
  | .finite negative m q =>
    some (signed negative (if m = 0 then "0.0" else (shortest m q).json))
  | _ => none

end Decimal

end MediaPipeline
