import RegisterRules.Number.Shortest

/-!
# The text of a number

A number is written with the fewest digits that read back. What is left to decide is the layout:
which orders of magnitude are written without an exponent, whether a whole number keeps a zero after
the point, and which way a tie between two shortest decimals goes.

## Main definitions

* `Number.Layout`: these three decisions.
* `Number.Layout.positional`: the layout in generated code and messages.
* `Number.Layout.document`: the layout in JSON documents.
* `Binary64.text`: the text of a number in a layout.
-/

namespace RegisterRules

namespace Number

/-- How a number is laid out. -/
structure Layout where
  /-- The orders of magnitude that are written without an exponent. -/
  isPlain : Int → Bool
  /-- Whether a whole number is written with `.0`. -/
  keepsPoint : Bool
  /-- Which of two equally near shortest decimals is written. -/
  tie : Tie

/-- Never an exponent, no point in a whole number: `0.0000001`, `1000000000000000000000`, `-0`. -/
def Layout.positional : Layout := ⟨fun _ => true, false, .up⟩

/-- An exponent below `1e-5` and from `1e16` on, a point in every plain number: `0.00001`, `1.0`,
`1e+16`, `1e-6`, `-0.0`. -/
def Layout.document : Layout := ⟨fun order => -4 ≤ order && order ≤ 16, true, .even⟩

/-- Digits with the point at `order` places after the start, filled up with zeros. -/
def plain (keepsPoint : Bool) (digits : List Char) (order : Int) : List Char :=
  let size : Int := digits.length
  if order ≤ 0 then
    '0' :: '.' :: (List.replicate (-order).toNat '0' ++ digits)
  else if size ≤ order then
    digits ++ List.replicate (order - size).toNat '0' ++ (if keepsPoint then ['.', '0'] else [])
  else
    digits.take order.toNat ++ '.' :: digits.drop order.toNat

/-- One digit before the point and the exponent with its sign. -/
def scientific (digits : List Char) (order : Int) : List Char :=
  let exponent := order - 1
  let mantissa := match digits with
    | first :: second :: rest => first :: '.' :: second :: rest
    | short => short
  mantissa ++ 'e' :: (if exponent < 0 then '-' else '+') :: Nat.toDigits 10 exponent.natAbs

/-- The text of a magnitude in a layout. -/
def Layout.magnitude (layout : Layout) (rank : Nat) : List Char :=
  if rank = 0 then '0' :: (if layout.keepsPoint then ['.', '0'] else [])
  else
    let d := Decimal.shortest layout.tie rank
    if layout.isPlain d.order then plain layout.keepsPoint d.digits d.order
    else scientific d.digits d.order

end Number

/-- The text of a number in a layout. -/
def Binary64.text (layout : Number.Layout) (x : Binary64) : String :=
  String.ofList ((if x.negative then ['-'] else []) ++ layout.magnitude x.rank)

end RegisterRules
