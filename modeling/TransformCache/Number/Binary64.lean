/-
Double-precision numbers as data: a sign, a whole number `m` and a power of two `q`.

`Binary64` holds the 64 bits. `magnitude` reads a finite number's size off them as `m * 2 ^ q`, and
`ofFraction` finds the number nearest to a fraction, a tie going to the even `m`. Products and
quotients are rounded in the same way. All arithmetic is on whole numbers, so nothing else is
rounded on the way.

`ofParts` makes a number of digits and a power of ten, which are two numbers already: each is
rounded, and so is what they come to. So it need not be the number nearest to the decimal.
-/

namespace TransformCache

/-- A double-precision number, by its bits. -/
structure Binary64 where
  bits : UInt64
  deriving DecidableEq, Repr

namespace Binary64

/-- True for negative numbers, negative zero included. -/
def isNegative (x : Binary64) : Bool := x.bits >>> 63 = 1

def exponentField (x : Binary64) : Nat := ((x.bits >>> 52) &&& 0x7FF).toNat

def fractionField (x : Binary64) : Nat := (x.bits &&& 0xFFFFFFFFFFFFF).toNat

/-- The least `m` of full length, `2 ^ 52`: the leading bit that is not stored. -/
def firstFull : Nat := 0x10000000000000

/-- A finite number's size as `(m, q)`, which stands for `m * 2 ^ q`. The smallest exponent
field marks numbers without the leading bit. -/
def magnitude (x : Binary64) : Nat × Int :=
  if x.exponentField = 0 then (x.fractionField, -1074)
  else (x.fractionField + firstFull, (x.exponentField : Int) - 1075)

/-- The number of size `m * 2 ^ q`, for `m` below `2 ^ 53` and of full length unless `q` is the
least. Nothing beyond the largest finite number. -/
def ofMagnitude (negative : Bool) (m : Nat) (q : Int) : Option Binary64 :=
  let sign : UInt64 := if negative then 0x8000000000000000 else 0
  if m < firstFull then some ⟨sign ||| UInt64.ofNat m⟩
  else
    let exponent := (q + 1075).toNat
    if 2047 ≤ exponent then none
    else some ⟨sign ||| UInt64.ofNat (exponent * firstFull + (m - firstFull))⟩

def zero (negative : Bool) : Binary64 := ⟨if negative then 0x8000000000000000 else 0⟩

/-- `num / den` to the nearest whole number, a tie going to the even one. -/
def divNearest (num den : Nat) : Nat :=
  let whole := num / den
  let twice := 2 * (num % den)
  if twice < den then whole
  else if den < twice then whole + 1
  else if whole % 2 = 0 then whole
  else whole + 1

/-- A power of two moved to the side of the fraction where it is whole. -/
def scale (num den : Nat) (q : Int) : Nat × Nat :=
  if 0 ≤ q then (num, den * Nat.pow 2 q.toNat) else (num * Nat.pow 2 (-q).toNat, den)

/-- The number nearest to the positive fraction `num / den`. -/
def ofFraction (negative : Bool) (num den : Nat) : Option Binary64 :=
  let guess : Int := max ((num.log2 : Int) - den.log2 - 53) (-1074)
  let (n, d) := scale num den guess
  let q := if 2 * firstFull ≤ n / d then guess + 1 else guess
  let (n, d) := scale num den q
  let m := divNearest n d
  if m = 2 * firstFull then ofMagnitude negative firstFull (q + 1) else ofMagnitude negative m q

/-- `num / den * 2 ^ q`, rounded to the nearest number. -/
def ofScaled (num den : Nat) (q : Int) : Option Binary64 :=
  let (num, den) := scale num den (-q)
  ofFraction false num den

/-- The size of a product. Nothing if it is past the largest finite number. -/
def times (x y : Binary64) : Option Binary64 :=
  ofScaled (x.magnitude.1 * y.magnitude.1) 1 (x.magnitude.2 + y.magnitude.2)

/-- The size of a quotient. -/
def quotient (x y : Binary64) : Option Binary64 :=
  ofScaled x.magnitude.1 y.magnitude.1 (x.magnitude.2 - y.magnitude.2)

/-- A number under a sign. -/
def signed (negative : Bool) (x : Binary64) : Binary64 :=
  if negative then ⟨x.bits ||| 0x8000000000000000⟩ else x

-- ====================================================== decimals

/-- The largest power of ten that is kept as a number. -/
def tenLimit : Nat := 308

/-- The number nearest to a power of ten. -/
def powerOfTen (power : Nat) : Option Binary64 := ofFraction false (Nat.pow 10 power) 1

/-- The size `x` divided by the largest power of ten that is kept, as often as there are rounds, and
then by the power that is left. Nothing is left to divide once it is zero. -/
def overTens (left : Nat) : Nat → Binary64 → Option Binary64
  | 0, x => (powerOfTen left).bind x.quotient
  | rounds + 1, x =>
    if x = zero false then some x
    else ((powerOfTen tenLimit).bind x.quotient).bind (overTens left rounds)

/-- The size `x` times a power of ten, nothing if it is out of range. -/
def timesTen (x : Binary64) (exponent : Int) : Option Binary64 :=
  if exponent < 0 then
    let rounds := (exponent.natAbs - 1) / tenLimit
    overTens (exponent.natAbs - rounds * tenLimit) rounds x
  else if exponent ≤ tenLimit then (powerOfTen exponent.toNat).bind x.times
  else if x = zero false then some x
  else none

/-- The number that is made of `digits * 10 ^ exponent`. -/
def ofParts (negative : Bool) (digits : Nat) (exponent : Int) : Option Binary64 :=
  ((ofFraction false digits 1).bind (·.timesTen exponent)).map (signed negative)

end Binary64

end TransformCache
