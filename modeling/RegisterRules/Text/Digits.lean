/-!
# Natural numbers in decimal digits

## Main definitions

* `Text.decimal`: the digits of a natural number, without leading zeros.
* `Text.decimal?`: the number that a text of digits spells, leading zeros allowed.
-/

namespace RegisterRules

namespace Text

/-- The decimal digits of a natural number. -/
def decimal (n : Nat) : String := String.ofList (Nat.toDigits 10 n)

/-- The decimal digits of a natural number, filled up with zeros to two. -/
def decimalPadded (n : Nat) : String := (if n < 10 then "0" else "") ++ decimal n

/-- The number that one or more digits spell. -/
def decimal? (digits : List Char) : Option Nat :=
  if digits ≠ [] ∧ digits.all Char.isDigit then some (Nat.ofDigitChars 10 digits 0) else none

end Text

end RegisterRules
