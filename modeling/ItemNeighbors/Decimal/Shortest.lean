import ItemNeighbors.Decimal

/-!
# Shortest decimals

A positive binary number `mantissa * 2 ^ exponent` stands for all reals that round to it. Among the
decimals in that interval the shortest is taken, of several the nearest to the number, and of two
at the same distance the one with the even last digit.

All ends of such intervals are multiples of `2 ^ -1076`, and all grids of decimals that are searched
consist of multiples of `10 ^ -341`. So whole numbers of units `2 ^ -1076 * 10 ^ -341` are exact.

- `RoundingInterval`: the reals that round to a binary number, in these units.
- `Decimal.shortest`: the shortest decimal in the interval.
-/

namespace ItemNeighbors

/-- The reals that round to a number, in units of `2 ^ -1076 * 10 ^ -341`. -/
structure RoundingInterval where
  lower : Nat
  middle : Nat
  upper : Nat
  /-- Whether the ends round to the number, too. -/
  closed : Bool

namespace RoundingInterval

/-- The interval of a binary number with at most 53 bits. It ends half way to the number above and
half way to the number below, which is only half as far away if the mantissa is the smallest one
with 53 bits. An end is a tie, which goes to the even mantissa. -/
def around (mantissa : Nat) (exponent : Int) : RoundingInterval :=
  let unit := Nat.pow 2 (exponent + 1074).toNat * Nat.pow 10 341
  let gap := if mantissa = Nat.pow 2 52 ∧ -1074 < exponent then 1 else 2
  { lower := (4 * mantissa - gap) * unit
    middle := 4 * mantissa * unit
    upper := (4 * mantissa + 2) * unit
    closed := mantissa % 2 = 0 }

/-- Whether a number of units lies in the interval. -/
def contains (r : RoundingInterval) (n : Nat) : Bool :=
  if r.closed then r.lower ≤ n && n ≤ r.upper else r.lower < n && n < r.upper

/-- How many decimal digits the middle has in front of the position `10 ^ -341`, that one
included. -/
def digitCount (r : RoundingInterval) : Nat :=
  (Nat.toDigits 10 (r.middle / Nat.pow 2 1076)).length

/-- The multiple of `10 ^ (place - 341)` in the interval that is nearest to the middle, if there is
one. Only the two neighbors of the middle on this grid can be it. -/
def nearestOnGrid? (r : RoundingInterval) (place : Nat) : Option Decimal :=
  let step := Nat.pow 10 place * Nat.pow 2 1076
  let below := r.middle / step
  let above := below + 1
  let exponent : Int := place - 341
  match r.contains (below * step), r.contains (above * step) with
  | false, false => none
  | true, false => some ⟨below, exponent⟩
  | false, true => some ⟨above, exponent⟩
  | true, true =>
    let toBelow := r.middle - below * step
    let toAbove := above * step - r.middle
    if toBelow < toAbove ∨ (toBelow = toAbove ∧ below % 2 = 0) then some ⟨below, exponent⟩
    else some ⟨above, exponent⟩

end RoundingInterval

namespace Decimal

/-- A binary number as a decimal, digit for digit. -/
def exact (mantissa : Nat) (exponent : Int) : Decimal :=
  if 0 ≤ exponent then ⟨mantissa * Nat.pow 2 exponent.toNat, 0⟩
  else ⟨mantissa * Nat.pow 5 (-exponent).toNat, exponent⟩

/-- The shortest decimal that rounds to a binary number, without zeros at the end: one digit is
tried first, then two, and so on. Seventeen always suffice; the exact decimal stands behind them. -/
def shortest (mantissa : Nat) (exponent : Int) : Decimal :=
  let interval := RoundingInterval.around mantissa exponent
  let count := interval.digitCount
  (((List.range 17).findSome? fun n => interval.nearestOnGrid? (count - (n + 1))).getD
    (exact mantissa exponent)).trim

end Decimal

end ItemNeighbors
