/-!
# Decimal/Binary — a double taken apart

A finite double is `mantissa · 2 ^ exponent` up to its sign; the parts are
read off its 64 bits, so that everything said about its decimal text is exact
arithmetic on natural numbers.
-/


namespace MediaPipeline

namespace Decimal

/-- What a double stands for. -/
inductive Parts where
  | finite (negative : Bool) (mantissa : Nat) (exponent : Int)
  | infinite (negative : Bool)
  | notANumber
  deriving DecidableEq, Repr

/-- The parts of a double, from its sign, its eleven exponent bits and its
fifty-two fraction bits. -/
def partsOfBits (bits : Nat) : Parts :=
  let negative := decide (bits / Nat.pow 2 63 = 1)
  let exponent := bits / Nat.pow 2 52 % Nat.pow 2 11
  let fraction := bits % Nat.pow 2 52
  if exponent = 2047 then
    if fraction = 0 then .infinite negative else .notANumber
  else if exponent = 0 then .finite negative fraction (-1074)
  else .finite negative (Nat.pow 2 52 + fraction) (Int.ofNat exponent - 1075)

/-- The parts of a double. -/
def parts (x : Float) : Parts := partsOfBits x.toBits.toNat

/-- Whether a double is neither infinite nor a NaN. -/
def isFinite (x : Float) : Bool :=
  match parts x with
  | .finite _ _ _ => true
  | _ => false

/-- A fraction of natural numbers. -/
structure Ratio where
  num : Nat
  den : Nat

/-- The fraction `m · 2 ^ q`. -/
def Ratio.ofBinary (m : Nat) (q : Int) : Ratio :=
  ⟨m * Nat.pow 2 q.toNat, Nat.pow 2 (-q).toNat⟩

/-- The fraction `m · 10 ^ e`. -/
def Ratio.ofDecimal (m : Nat) (e : Int) : Ratio :=
  ⟨m * Nat.pow 10 e.toNat, Nat.pow 10 (-e).toNat⟩

/-- Whether one fraction is below another. -/
def Ratio.lt (a b : Ratio) : Bool := decide (a.num * b.den < b.num * a.den)

/-- Whether one fraction is at most another. -/
def Ratio.le (a b : Ratio) : Bool := decide (a.num * b.den ≤ b.num * a.den)

/-- The natural number that a double is exactly, where it is one. A zero of
either sign is the number zero. -/
def natural? (x : Float) : Option Nat :=
  match parts x with
  | .finite negative m q =>
    let r := Ratio.ofBinary m q
    if m = 0 then some 0
    else if negative then none
    else if r.num % r.den = 0 then some (r.num / r.den)
    else none
  | _ => none

end Decimal

end MediaPipeline
