/-!
# Decimals

- `Decimal`: a whole number of units, each a power of ten.
- `Decimal.trim`: the same value with as few digits as possible.
- `DecimalLayout`: how a decimal is written, and `Decimal.chars`, the writing.
- `Decimal.toFloat`: the floating point number that a decimal rounds to.
-/

namespace ItemNeighbors

/-- The number `digits * 10 ^ exponent`. -/
structure Decimal where
  digits : Nat
  exponent : Int
deriving DecidableEq

/-- Which decimals are written with a plain point. With `x` the exponent of the first digit, plain
writing is used from `plainFrom` to `plainTo`, and powers of ten outside. -/
structure DecimalLayout where
  plainFrom : Int
  plainTo : Int

namespace Decimal

/-- Drops the zeros at the end of the digits. -/
def trim (d : Decimal) : Decimal :=
  if h : d.digits ≠ 0 ∧ d.digits % 10 = 0 then trim ⟨d.digits / 10, d.exponent + 1⟩ else d
termination_by d.digits
decreasing_by exact Nat.div_lt_self (Nat.pos_of_ne_zero h.1) (by decide)

/-- The digits from the first to the last. -/
def digitChars (d : Decimal) : List Char := Nat.toDigits 10 d.digits

/-- The exponent that the first digit has. -/
def leadingExponent (d : Decimal) : Int := d.digitChars.length - 1 + d.exponent

/-- Plain writing: always with a point and at least one digit on both sides of it. -/
def plainChars (d : Decimal) : List Char :=
  let chars := d.digitChars
  let x := d.leadingExponent
  if x < 0 then '0' :: '.' :: (List.replicate (-x - 1).toNat '0' ++ chars)
  else
    let whole := x.toNat + 1
    if chars.length ≤ whole then
      chars ++ List.replicate (whole - chars.length) '0' ++ ['.', '0']
    else chars.take whole ++ '.' :: chars.drop whole

/-- Writing by a power of ten: one digit before the point, none of it if there is only one digit,
and the sign of the exponent, whichever it is. -/
def powerChars (d : Decimal) : List Char :=
  let mantissa :=
    match d.digitChars with
    | [] => []
    | [first] => [first]
    | first :: rest => first :: '.' :: rest
  let x := d.leadingExponent
  mantissa ++ 'e' :: (if x < 0 then '-' else '+') :: Nat.toDigits 10 x.natAbs

/-- A decimal as it is written. -/
def chars (layout : DecimalLayout) (d : Decimal) : List Char :=
  if layout.plainFrom ≤ d.leadingExponent ∧ d.leadingExponent ≤ layout.plainTo then d.plainChars
  else d.powerChars

/-- The nearest floating point number, an infinity if the decimal is too large. -/
def toFloat (d : Decimal) : Float :=
  Float.ofScientific d.digits (d.exponent < 0) d.exponent.natAbs

end Decimal

end ItemNeighbors
