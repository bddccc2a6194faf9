import ItemNeighbors.Decimal

/-!
# Numerals

Numbers as people write them: whole numbers of 64 bits and real numbers in decimal notation.
Nothing is trimmed, and every character counts.

- `Numeral.word`: a whole number in a base up to sixteen.
- `Numeral.real`: a decimal number, an infinity or `nan`.
- `NumeralError`: what is wrong with a numeral.
-/

namespace ItemNeighbors

/-- What is wrong with a numeral. -/
inductive NumeralError where
  /-- There is no text where a whole number is expected. -/
  | emptyInteger
  /-- A character is no digit of the base. -/
  | invalidDigit
  /-- The number does not fit into 64 bits. -/
  | tooLarge
  /-- There is no text where a real number is expected. -/
  | emptyReal
  /-- The text is no real number. -/
  | invalidReal
deriving DecidableEq

/-- The wording of the error. -/
def NumeralError.message : NumeralError → String
  | emptyInteger => "cannot parse integer from empty string"
  | invalidDigit => "invalid digit found in string"
  | tooLarge => "number too large to fit in target type"
  | emptyReal => "cannot parse float from empty string"
  | invalidReal => "invalid float literal"

namespace Numeral

/-! ## Whole numbers -/

/-- The value of a digit in a base up to sixteen. Letters count from ten on, in either case. -/
def digitValue? (base : Nat) (c : Char) : Option Nat :=
  let value :=
    if '0' ≤ c ∧ c ≤ '9' then some (c.toNat - '0'.toNat)
    else if 'a' ≤ c ∧ c ≤ 'f' then some (c.toNat - 'a'.toNat + 10)
    else if 'A' ≤ c ∧ c ≤ 'F' then some (c.toNat - 'A'.toNat + 10)
    else none
  value.filter (· < base)

/-- Appends digits to a number. The first character that is no digit or makes the number too large
decides about the error. -/
def wordFrom (base number : Nat) : List Char → Except NumeralError UInt64
  | [] => .ok (UInt64.ofNat number)
  | c :: rest =>
    match digitValue? base c with
    | none => .error .invalidDigit
    | some digit =>
      if number * base + digit < UInt64.size then wordFrom base (number * base + digit) rest
      else .error .tooLarge

/-- A whole number: digits, at least one, after at most one plus sign. -/
def word (base : Nat) : List Char → Except NumeralError UInt64
  | [] => .error .emptyInteger
  | ['+'] => .error .invalidDigit
  | '+' :: digits => wordFrom base 0 digits
  | digits => wordFrom base 0 digits

/-! ## Real numbers -/

/-- The exponent that follows the digits of a real number, zero where there is none. -/
def exponent? : List Char → Option Int
  | [] => some 0
  | mark :: rest =>
    if mark = 'e' ∨ mark = 'E' then
      let (negative, digits) :=
        match rest with
        | '-' :: digits => (true, digits)
        | '+' :: digits => (false, digits)
        | digits => (false, digits)
      if digits.isEmpty || !digits.all Char.isDigit then none
      else
        let size : Int := Nat.ofDigitChars 10 digits 0
        some (if negative then -size else size)
    else none

/-- Digits, possibly with a point between or beside them, and possibly an exponent. -/
def decimal? (text : List Char) : Option Decimal :=
  let whole := text.takeWhile Char.isDigit
  let (fraction, rest) :=
    match text.dropWhile Char.isDigit with
    | '.' :: rest => (rest.takeWhile Char.isDigit, rest.dropWhile Char.isDigit)
    | rest => ([], rest)
  if whole.isEmpty && fraction.isEmpty then none
  else (exponent? rest).map fun exponent =>
    { digits := Nat.ofDigitChars 10 (whole ++ fraction) 0
      exponent := exponent - fraction.length }

/-- A real number without a sign. The words for the numbers that have no digits may be written in
any case. -/
def magnitude? (text : List Char) : Option Float :=
  let lower := text.map Char.toLower
  if lower = ['i', 'n', 'f'] ∨ lower = ['i', 'n', 'f', 'i', 'n', 'i', 't', 'y'] then
    some (1.0 / 0.0)
  else if lower = ['n', 'a', 'n'] then some (0.0 / 0.0)
  else (decimal? text).map Decimal.toFloat

/-- A real number, rounded to the nearest floating point number, after at most one sign. -/
def real (text : List Char) : Except NumeralError Float :=
  let value? :=
    match text with
    | '-' :: rest => (magnitude? rest).map fun value => -value
    | '+' :: rest => magnitude? rest
    | rest => magnitude? rest
  match text, value? with
  | [], _ => .error .emptyReal
  | _, none => .error .invalidReal
  | _, some value => .ok value

end Numeral

end ItemNeighbors
