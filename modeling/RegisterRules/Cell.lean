import RegisterRules.Text.Cyrillic
import RegisterRules.Text.Digits

/-!
# Column references

A column reference is the mark `гр` followed by digits: five for the register, one for the table
part, and two or more for the column. `гр10102212` is column `12` of part `2` of register `10102`.

A reference keeps its digits as they were written, leading zeros of the column included, and prints
them again. Two references are to the same column whenever register, part and column agree.

## Main definitions

* `TableId`: a register code and a table part.
* `Cell`: a column reference.
* `Cell.decode?`: the reference that a text spells.
* `Cell.display`: the text of a reference.
* `Cell.sameColumn`: whether two references are to one column.
-/

namespace RegisterRules

/-- One table part of one register. -/
structure TableId where
  code : String
  part : UInt8
deriving DecidableEq

/-- A reference to a column of a table. -/
structure Cell where
  /-- The code of the register. -/
  code : String
  /-- The table part. -/
  part : UInt8
  /-- The number of the column. -/
  column : UInt32
  /-- The digits as they were written. -/
  digits : String
deriving DecidableEq

namespace Cell

/-- The reference that stands where a rule names no column: everything empty or zero. -/
def blank : Cell := ⟨"", 0, 0, ""⟩

/-- The table that the column belongs to. -/
def table (c : Cell) : TableId := ⟨c.code, c.part⟩

theorem table_eq_iff {c : Cell} {id : TableId} :
    c.table = id ↔ c.code = id.code ∧ c.part = id.part := by
  cases id
  simp [table]

/-- Whether two references are to one column; how they were written does not matter. -/
def sameColumn (c d : Cell) : Bool :=
  c.code == d.code && c.part == d.part && c.column == d.column

/-- Whether two characters are the mark `гр`, in small or capital letters. -/
def isMark (first second : Char) : Bool :=
  Text.lower first == 'г' && Text.lower second == 'р'

/-- Whether a text starts with the mark of a reference. -/
def isMarked : List Char → Bool
  | first :: second :: _ => isMark first second
  | _ => false

/-- The digits before the column: five of the register and one of the table part. -/
def columnPlace : Nat := 6

/-- The reference with the given digits: at least eight, and a column below `2 ^ 32`. -/
def ofDigits? (digits : List Char) : Option Cell :=
  if 8 ≤ digits.length ∧ digits.all Char.isDigit then
    let column := Nat.ofDigitChars 10 (digits.drop columnPlace) 0
    if column < UInt32.size then
      some
        { code := String.ofList (digits.take 5)
          part := UInt8.ofNat (Nat.ofDigitChars 10 ((digits.drop 5).take 1) 0)
          column := UInt32.ofNat column
          digits := String.ofList digits }
    else none
  else none

/-- The reference that a text spells: the mark, then the digits. -/
def decode? (text : String) : Option Cell :=
  if isMarked text.toList then ofDigits? (text.toList.drop 2) else none

/-- The text of a reference. -/
def display (c : Cell) : String := "гр" ++ c.digits

/-- Another column of the same table. Its number is written with two digits at least. -/
def atColumn (c : Cell) (column : UInt32) : Cell :=
  { c with
    column
    digits := c.code ++ Text.decimal c.part.toNat ++ Text.decimalPadded column.toNat }

/-- What is left of a text behind its first `count` bytes, if a character ends there. -/
def dropBytes? : Nat → List Char → Option (List Char)
  | 0, text => some text
  | _ + 1, [] => none
  | count + 1, c :: text =>
    if c.utf8Size ≤ count + 1 then dropBytes? (count + 1 - c.utf8Size) text else none

/-- The digits of the column as they were written; nothing if the digits of the reference are too
few, or are no digits and a character lies across the place where the column starts. -/
def columnText (c : Cell) : String :=
  String.ofList ((dropBytes? columnPlace c.digits.toList).getD [])

end Cell

end RegisterRules
