/-!
# Shortest decimals

A binary fraction `significand * 2 ^ exponent` stands for every number that rounds to
it: those nearer to it than to its neighbours, and the points halfway when its
significand is even.  Its shortest decimal is the one with the fewest digits among
these numbers, and of several the nearest.

Decimals with a given number of digits form a grid.  If a point of the grid rounds to
the fraction, so does one of the two points beside it, so only these are tried.
-/

namespace ByteSignature.Text

/-- The number `digits * 10 ^ exponent`. -/
structure Decimal where
  digits : Nat
  exponent : Int
  deriving DecidableEq, Repr

namespace Shortest

/-- The numbers that round to a binary fraction, in quarters of its last place. -/
structure Range where
  low : Nat
  middle : Nat
  high : Nat
  /-- The ends belong to the range. -/
  isClosed : Bool

/-- The range of a positive fraction with at most `places` binary places.  The next
smaller fraction is only half as far away when the significand is the least one with
that many places and the exponent is not yet the least one. -/
def rangeOf (places : Nat) (leastExponent : Int) (significand : Nat) (exponent : Int) :
    Range where
  low :=
    if significand = 1 <<< (places - 1) ∧ leastExponent < exponent then
      4 * significand - 1
    else
      4 * significand - 2
  middle := 4 * significand
  high := 4 * significand + 2
  isClosed := significand % 2 = 0

/-- The exponent of the greatest power of ten that does not pass a positive quotient. -/
def floorLog (numerator denominator : Nat) : Int :=
  if denominator ≤ numerator then
    ((Nat.toDigits 10 (numerator / denominator)).length : Int) - 1
  else
    .negOfNat (Nat.toDigits 10 ((denominator - 1) / numerator)).length

/-- A point of the decimal grid is in the range, in units in which a step of the grid
is `step` and a quarter of the last place is `quarter`. -/
def Range.holds (range : Range) (quarter step point : Nat) : Bool :=
  if range.isClosed then
    decide (range.low * quarter ≤ point * step ∧ point * step ≤ range.high * quarter)
  else
    decide (range.low * quarter < point * step ∧ point * step < range.high * quarter)

/-- The point of a grid that rounds to the fraction: the nearer of the two beside it,
and of two at the same distance the even one. -/
def onGrid (range : Range) (quarter step : Nat) : Option Nat :=
  let below := range.middle * quarter / step
  let twice := 2 * (range.middle * quarter % step)
  let belowFirst := twice < step || (twice == step && below % 2 == 0)
  let nearer := if belowFirst then below else below + 1
  let farther := if belowFirst then below + 1 else below
  if range.holds quarter step nearer then
    some nearer
  else if range.holds quarter step farther then
    some farther
  else
    none

/-- Try grids of `count`, `count + 1`, … digits. -/
def search (range : Range) (exponent : Int) (magnitude : Int) :
    (tries count : Nat) → Option Decimal
  | 0, _ => none
  | tries + 1, count =>
      let place : Int := magnitude + 1 - count
      let quarter := Nat.pow 10 (-place).toNat <<< (exponent - 2).toNat
      let step := Nat.pow 10 place.toNat <<< (2 - exponent).toNat
      match onGrid range quarter step with
      | some digits => some ⟨digits, place⟩
      | none => search range exponent magnitude tries (count + 1)

/-- The same number without zeros at the end of its digits. -/
def dropZeros : Nat → Decimal → Decimal
  | 0, decimal => decimal
  | tries + 1, ⟨digits, exponent⟩ =>
      if digits % 10 = 0 ∧ digits ≠ 0 then
        dropZeros tries ⟨digits / 10, exponent + 1⟩
      else
        ⟨digits, exponent⟩

end Shortest

/-- The shortest decimal of a positive double.  Seventeen digits are always enough. -/
def shortestDecimal (significand : Nat) (exponent : Int) : Decimal :=
  let magnitude :=
    Shortest.floorLog (significand <<< exponent.toNat) (1 <<< (-exponent).toNat)
  let range := Shortest.rangeOf 53 (-1074) significand exponent
  match Shortest.search range exponent magnitude 17 1 with
  | some decimal => Shortest.dropZeros 17 decimal
  | none => ⟨significand, 0⟩

end ByteSignature.Text
