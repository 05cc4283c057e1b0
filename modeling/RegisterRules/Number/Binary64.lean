/-!
# Finite binary64 numbers

Every number of a rule is a finite binary64 number. The non-negative ones form an ascending list
that starts with zero, and a number is stored as its place in that list together with a sign. So
the two zeros are different numbers, and the arithmetic below is exact arithmetic on natural
numbers: no step rounds except `nearestRank`, whose job it is.

The infinities and what is not a number are left out. No rule can spell them: a literal has digits
only, and one that would round to infinity is refused. Only a host could put them into its tables or
into a phrase that it builds itself, and nothing here speaks of such hosts.

All magnitudes are whole multiples of the least positive one, `2 ^ -1074`. `units` counts them.

## Main definitions

* `Binary64`: a finite number, by sign and rank.
* `Binary64.units`: the magnitude of a rank, in units of `2 ^ -1074`.
* `Binary64.nearestRank`: the rank nearest to a fraction of units, a tie going to the even one.
* `Binary64.equal`: numeric equality, under which the two zeros agree.
-/

namespace RegisterRules

/-- The weight of the leading bit of a significand of 53 bits: `2 ^ 52`. -/
def Binary64.leadingBit : Nat := 0x10000000000000

/-- The number of finite magnitudes. -/
def Binary64.rankBound : Nat := 2047 * leadingBit

/-- A finite binary64 number: a sign, and the rank of its magnitude among all magnitudes in
ascending order, zero having rank `0`. -/
structure Binary64 where
  /-- Whether the number carries a minus sign; negative zero does. -/
  negative : Bool
  /-- The place of the magnitude among the finite magnitudes. -/
  rank : Nat
  /-- Ranks from the bound on would be infinite. -/
  rank_lt : rank < Binary64.rankBound
deriving DecidableEq

namespace Binary64

/-- How many units of `2 ^ -1074` make one. -/
def unitsPerOne : Nat := Nat.pow 2 1074

/-- The power of two, counted from `2 ^ -1074`, of the last place of a magnitude. -/
def scale (rank : Nat) : Nat := rank / leadingBit - 1

/-- The significand of a magnitude: all 53 bits, except for the subnormal ones. -/
def significand (rank : Nat) : Nat :=
  if rank < leadingBit then rank else leadingBit + rank % leadingBit

/-- The magnitude of a rank in units of `2 ^ -1074`. -/
def units (rank : Nat) : Nat := significand rank * Nat.pow 2 (scale rank)

/-- Quotient to the nearest whole number; a half goes to the even neighbour. -/
def roundHalfEven (num den : Nat) : Nat :=
  let quotient := num / den
  let twice := 2 * (num % den)
  if den < twice ∨ (twice = den ∧ quotient % 2 = 1) then quotient + 1 else quotient

/-- The rank of the magnitude nearest to `num / den` units, a tie going to the even significand.
A result of `rankBound` or more says that the fraction rounds to no finite number. -/
def nearestRank (num den : Nat) : Nat :=
  let shift := (num / den).log2 - 52
  shift * leadingBit + roundHalfEven num (den * Nat.pow 2 shift)

/-- The number with the given sign and rank, if that rank is finite. -/
def ofRank? (negative : Bool) (rank : Nat) : Option Binary64 :=
  if h : rank < rankBound then some ⟨negative, rank, h⟩ else none

/-- Positive zero. -/
def zero : Binary64 := ⟨false, 0, by decide⟩

/-- Negative zero. -/
def negZero : Binary64 := ⟨true, 0, by decide⟩

/-- Numeric equality: the two zeros agree, any other number agrees with itself only. -/
def equal (x y : Binary64) : Bool :=
  x.rank == y.rank && (x.negative == y.negative || x.rank == 0)

@[simp] theorem equal_self (x : Binary64) : x.equal x = true := by simp [equal]

end Binary64

end RegisterRules
