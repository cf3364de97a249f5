/-
The shortest decimal that reads back as a given double-precision number.

The decimals that round to a number `m * 2 ^ q` fill an interval around it, which has its ends
exactly when `m` is even. `shortest` goes through the grids of 1, 2, … 17 significant digits and
takes the first one with a point in the interval. Only the two neighbours of the number itself
can be the nearest point of a grid: of two hits the nearer is taken, and of two equally near the
one with an even last digit.
-/
import TransformCache.Number.Binary64

namespace TransformCache.Binary64

/-- A positive decimal `digits * 10 ^ exponent`. -/
structure Decimal where
  digits : Nat
  exponent : Int
  deriving DecidableEq, Repr

/-- The number and the ends of its interval as fractions over one denominator. -/
structure Interval where
  low : Nat
  value : Nat
  high : Nat
  den : Nat
  closed : Bool
  deriving DecidableEq, Repr

/-- The interval of `m * 2 ^ q`. Below a power of two the numbers lie twice as close. -/
def intervalOf (m : Nat) (q : Int) : Interval :=
  let down := if m = firstFull ∧ -1074 < q then 1 else 2
  let shift := q - 2
  let up := Nat.pow 2 shift.toNat
  { low := (4 * m - down) * up
    value := 4 * m * up
    high := (4 * m + 2) * up
    den := Nat.pow 2 (-shift).toNat
    closed := m % 2 = 0 }

/-- The interval and its denominator, brought to the grid of step `10 ^ step`. -/
def Interval.onGrid (i : Interval) (step : Int) : Interval :=
  let up := Nat.pow 10 (-step).toNat
  { i with
    low := i.low * up, value := i.value * up, high := i.high * up
    den := i.den * Nat.pow 10 step.toNat }

/-- Whether the grid point `point` lies in the interval. -/
def Interval.holds (i : Interval) (point : Nat) : Bool :=
  let p := point * i.den
  if i.closed then i.low ≤ p && p ≤ i.high else i.low < p && p < i.high

/-- The point of this grid that the number is written as, if one lies in the interval. -/
def Interval.pick (i : Interval) : Option Nat :=
  let below := i.value / i.den
  let above := below + 1
  match i.holds below && 0 < below, i.holds above with
  | true, true =>
    let down := i.value - below * i.den
    let up := above * i.den - i.value
    if down < up then some below
    else if up < down then some above
    else if below % 2 = 0 then some below else some above
  | true, false => some below
  | false, true => some above
  | false, false => none

/-- The first grid with a hit, from step `10 ^ step` downwards. -/
def firstGrid (i : Interval) : Nat → Int → Decimal
  | 0, step => ⟨(i.onGrid step).value / (i.onGrid step).den, step⟩
  | grids + 1, step =>
    match (i.onGrid step).pick with
    | some digits => ⟨digits, step⟩
    | none => firstGrid i grids (step - 1)

/-- The least `e`, from the given one on, with `num < den * 10 ^ (e + 1)`: the exponent of the
leading digit, once the start is not above it. -/
def leadingExponent (num den : Nat) : Nat → Int → Int
  | 0, e => e
  | tries + 1, e =>
    let next := e + 1
    if num * Nat.pow 10 (-next).toNat < den * Nat.pow 10 next.toNat then e
    else leadingExponent num den tries next

/-- Trailing zeros moved into the exponent, at most `steps` of them. -/
def Decimal.trim : Nat → Decimal → Decimal
  | 0, d => d
  | steps + 1, d =>
    if d.digits ≠ 0 ∧ d.digits % 10 = 0 then trim steps ⟨d.digits / 10, d.exponent + 1⟩ else d

/-- The shortest decimal that reads back as the finite number of size `m * 2 ^ q`. The search for
its leading digit starts from the binary exponent, times the logarithm of two, less a margin. -/
def shortestOf (m : Nat) (q : Int) : Decimal :=
  if m = 0 then ⟨0, 0⟩
  else
    let i := intervalOf m q
    let binary : Int := (i.value.log2 : Int) - i.den.log2
    let lead := leadingExponent i.value i.den 6 (binary * 30103 / 100000 - 2)
    (firstGrid i 17 lead).trim 20

/-- The shortest decimal that reads back as `x`, the sign left out. -/
def shortest (x : Binary64) : Decimal := shortestOf x.magnitude.1 x.magnitude.2

end TransformCache.Binary64
