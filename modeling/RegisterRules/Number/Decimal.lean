import RegisterRules.Number.Binary64

/-!
# Decimal numbers and their nearest binary64 number

A decimal number is a natural coefficient and a power of ten. `Decimal.rank?` rounds it to the
nearest binary64 magnitude by exact arithmetic. Numbers far outside the binary64 range are decided
by their order alone, so that an exponent of any size costs nothing.

`Numeral.read?` reads a number as it is written in a token: an optional sign, digits with an
optional point before, among or after them, and an optional exponent.

## Main definitions

* `Decimal`: coefficient and exponent.
* `Decimal.rank?`: the nearest magnitude, if it is finite.
* `Binary64.ofDecimal?`, `Binary64.ofNat?`, `Binary64.ofInt?`: conversions.
* `Numeral.read?`: the finite number that a text spells.
-/

namespace RegisterRules

/-- The number `coefficient * 10 ^ exponent`. -/
structure Decimal where
  coefficient : Nat
  exponent : Int
deriving DecidableEq

namespace Decimal

/-- The decimal digits of the coefficient, without leading zeros. -/
def digits (d : Decimal) : List Char := Nat.toDigits 10 d.coefficient

/-- The place of the decimal point relative to the first digit: a number of order `k` other than
zero lies between `10 ^ (k - 1)` and `10 ^ k`. -/
def order (d : Decimal) : Int := d.digits.length + d.exponent

/-- The decimal as a fraction, numerator first. -/
def fraction (d : Decimal) : Nat × Nat :=
  (d.coefficient * Nat.pow 10 d.exponent.toNat, Nat.pow 10 (-d.exponent).toNat)

/-- The rank of the nearest binary64 magnitude, if the number does not round to infinity. The
bounds on the order only cut off what is infinite or zero in any case. -/
def rank? (d : Decimal) : Option Nat :=
  if d.coefficient = 0 then some 0
  else if 310 < d.order then none
  else if d.order < -330 then some 0
  else
    let rank := Binary64.nearestRank (d.fraction.1 * Binary64.unitsPerOne) d.fraction.2
    if rank < Binary64.rankBound then some rank else none

end Decimal

namespace Binary64

/-- The finite number nearest to a signed decimal. -/
def ofDecimal? (negative : Bool) (d : Decimal) : Option Binary64 :=
  d.rank?.bind (ofRank? negative)

/-- The finite number nearest to a natural number. -/
def ofNat? (n : Nat) : Option Binary64 := ofDecimal? false ⟨n, 0⟩

/-- The finite number nearest to an integer. -/
def ofInt? (n : Int) : Option Binary64 := ofDecimal? (n < 0) ⟨n.natAbs, 0⟩

end Binary64

/-! ### Written numbers -/

namespace Numeral

/-- The decimal with the given digits before and after the point, times a power of ten. -/
def decimal (whole fraction : List Char) (exponent : Int) : Decimal :=
  ⟨Nat.ofDigitChars 10 (whole ++ fraction) 0, exponent - fraction.length⟩

/-- A leading sign: whether it is a minus, and the text after it. -/
def sign : List Char → Bool × List Char
  | '-' :: rest => (true, rest)
  | '+' :: rest => (false, rest)
  | rest => (false, rest)

/-- The exponent that a text spells completely: nothing at all, or a mark, an optional sign and at
least one digit. -/
def exponent? : List Char → Option Int
  | [] => some 0
  | mark :: rest =>
    let (negative, digits) := sign rest
    if (mark = 'e' ∨ mark = 'E') ∧ digits ≠ [] ∧ digits.all Char.isDigit then
      let size : Int := Nat.ofDigitChars 10 digits 0
      some (if negative then -size else size)
    else none

/-- The decimal that an unsigned text spells: digits with an optional point, at least one digit in
all, then the exponent. -/
def magnitude? (text : List Char) : Option Decimal :=
  let whole := text.takeWhile Char.isDigit
  let rest := text.dropWhile Char.isDigit
  let (fraction, rest) := match rest with
    | '.' :: more => (more.takeWhile Char.isDigit, more.dropWhile Char.isDigit)
    | _ => ([], rest)
  if whole ++ fraction = [] then none
  else (exponent? rest).map (decimal whole fraction)

/-- The finite number that a text spells. A text that is no number, and one that rounds to no
finite number, give `none`. -/
def read? (text : List Char) : Option Binary64 :=
  let (negative, unsigned) := sign text
  (magnitude? unsigned).bind (Binary64.ofDecimal? negative)

end Numeral

end RegisterRules
