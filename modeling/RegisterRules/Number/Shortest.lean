import RegisterRules.Number.Decimal

/-!
# The fewest digits that read back

Of all decimals that round to a given binary64 magnitude, `Decimal.shortest` is one with the fewest
digits, and of those the nearest. It tries one digit, two digits and so on: with a given number of
digits only the two neighbours of the magnitude on the decimal grid can be nearest, and each is
tested by rounding it. Seventeen digits always suffice; the exact expansion, which every magnitude
has, stands behind them so that the function needs no argument to be total.

## Main definitions

* `Tie`: which of two equally near neighbours is taken.
* `Decimal.shortest`: the fewest digits that round to a magnitude.
-/

namespace RegisterRules

/-- The choice between two neighbours that are equally near. -/
inductive Tie where
  /-- The larger one. -/
  | up
  /-- The one with the even last digit. -/
  | even
deriving DecidableEq

namespace Decimal

/-- Drop up to `room` trailing zeros of a coefficient. -/
def trim : Nat → Nat → Int → Decimal
  | 0, coefficient, exponent => ⟨coefficient, exponent⟩
  | room + 1, coefficient, exponent =>
    if coefficient % 10 = 0 then trim room (coefficient / 10) (exponent + 1)
    else ⟨coefficient, exponent⟩

/-- The same number without trailing zeros in its coefficient. -/
def trimmed (d : Decimal) : Decimal := trim d.coefficient.log2 d.coefficient d.exponent

/-- The exact decimal expansion of a magnitude. -/
def exact (rank : Nat) : Decimal := ⟨Binary64.units rank * Nat.pow 5 1074, -1074⟩

/-- The order of a magnitude as a decimal number: the digits before its point, or, negated, the
zeros between the point and its first digit. -/
def orderOf (rank : Nat) : Int :=
  let units := Binary64.units rank
  let whole := units / Binary64.unitsPerOne
  if whole = 0 then
    -((List.range 330).takeWhile fun places =>
      units * Nat.pow 10 (places + 1) < Binary64.unitsPerOne).length
  else (Nat.toDigits 10 whole).length

/-- The better of the two `precision`-digit neighbours of a magnitude that round to it. -/
def atPrecision (tie : Tie) (rank precision : Nat) : Option Decimal :=
  let exponent := orderOf rank - precision
  let num := Binary64.units rank * Nat.pow 10 (-exponent).toNat
  let den := Binary64.unitsPerOne * Nat.pow 10 exponent.toNat
  let below := num / den
  let twice := 2 * (num % den)
  let low := trimmed ⟨below, exponent⟩
  let high := trimmed ⟨below + 1, exponent⟩
  let lowReads : Bool := low.rank? == some rank
  let highReads : Bool := high.rank? == some rank
  if lowReads && highReads then
    if twice < den then some low
    else if den < twice then some high
    else match tie with
      | .up => some high
      | .even => if below % 2 = 0 then some low else some high
  else if lowReads then some low
  else if highReads then some high
  else none

/-- The decimal with the fewest digits that rounds to a magnitude, the nearest of them. -/
def shortest (tie : Tie) (rank : Nat) : Decimal :=
  match (List.range 17).findSome? fun n => atPrecision tie rank (n + 1) with
  | some d => d
  | none => trimmed (exact rank)

end Decimal

end RegisterRules
