import MediaPipeline.Decimal.Binary
/-!
# Decimal/Shortest — the fewest digits that read back

A positive double is the only double in an interval of reals, the ones that
round to it. Its shortest decimal is the decimal with the fewest digits in
that interval, and of those the nearest to the double, the greater one on a
tie.
-/


namespace MediaPipeline

namespace Decimal

/-- The number `digits · 10 ^ exponent`. -/
structure Scientific where
  digits : Nat
  exponent : Int
  deriving DecidableEq, Repr

/-- The reals that round to `m · 2 ^ q`, in units of `2 ^ (q - 2)`: half a
step on either side, and a quarter below a power of two, where the doubles
lie closer. The ends belong to it when `m` is even. -/
structure Interval where
  low : Ratio
  high : Ratio
  closed : Bool

/-- The interval of the double `m · 2 ^ q`. -/
def Interval.around (m : Nat) (q : Int) : Interval where
  low := Ratio.ofBinary (if m = Nat.pow 2 52 ∧ q ≠ -1074 then 4 * m - 1 else 4 * m - 2) (q - 2)
  high := Ratio.ofBinary (4 * m + 2) (q - 2)
  closed := m % 2 == 0

/-- Whether a fraction lies in an interval. -/
def Interval.contains (i : Interval) (r : Ratio) : Bool :=
  if i.closed then i.low.le r && r.le i.high else i.low.lt r && r.lt i.high

/-- The greatest `e` with `10 ^ e ≤ r`, among the `fuel` numbers that end at
`top`. -/
def magnitudeBelow (r : Ratio) : Nat → Int → Int
  | 0, top => top
  | fuel + 1, top =>
    if (Ratio.ofDecimal 1 top).le r then top else magnitudeBelow r fuel (top - 1)

/-- The power of ten that a positive double reaches. The search starts at an
estimate from its length in bits that is never too low. -/
def magnitude (m : Nat) (q : Int) : Int :=
  magnitudeBelow (Ratio.ofBinary m q) 4 ((Int.ofNat m.log2 + q) * 30103 / 100000 + 1)

/-- The decimal of the grid `10 ^ e` that is nearest to `r` among its two
neighbours that lie in the interval, the greater one on a tie. -/
def onGrid? (i : Interval) (r : Ratio) (e : Int) : Option Scientific :=
  let unit := Ratio.ofDecimal 1 e
  let below := r.num * unit.den / (r.den * unit.num)
  let hasBelow := i.contains (Ratio.ofDecimal below e)
  let hasAbove := i.contains (Ratio.ofDecimal (below + 1) e)
  if hasBelow && hasAbove then
    if 2 * (r.num * unit.den) < (2 * below + 1) * (r.den * unit.num) then some ⟨below, e⟩
    else some ⟨below + 1, e⟩
  else if hasBelow then some ⟨below, e⟩
  else if hasAbove then some ⟨below + 1, e⟩
  else none

/-- The first grid with a decimal in the interval, from the coarsest on; at
the finest the double is told from its neighbours. -/
def firstGrid (i : Interval) (r : Ratio) : Nat → Int → Scientific
  | 0, e => ⟨r.num * (Ratio.ofDecimal 1 e).den / (r.den * (Ratio.ofDecimal 1 e).num), e⟩
  | fuel + 1, e =>
    match onGrid? i r e with
    | some s => s
    | none => firstGrid i r fuel (e - 1)

/-- The same number without zeros at the end of its digits. -/
def Scientific.trim (s : Scientific) : Scientific :=
  if s.digits ≠ 0 ∧ s.digits % 10 = 0 then
    Scientific.trim ⟨s.digits / 10, s.exponent + 1⟩
  else s
termination_by s.digits
decreasing_by omega

/-- The shortest decimal that rounds to the double `m · 2 ^ q`, for a
positive `m`. -/
def shortest (m : Nat) (q : Int) : Scientific :=
  (firstGrid (.around m q) (.ofBinary m q) 17 (magnitude m q)).trim

end Decimal

end MediaPipeline
