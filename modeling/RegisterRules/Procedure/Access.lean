import RegisterRules.Cell
import RegisterRules.Phrase
import RegisterRules.Procedure.Stmt

/-!
# The vocabulary of generated code

Generated procedures read and write tables through four calls and keep two variables: the list of
violations found and whether there were none. This module builds the expressions and statements
for that.

## Main definitions

* `Procedure.cellValue`, `Procedure.columnValues`, `Procedure.tableRows`, `Procedure.setCell`:
  access to tables.
* `Procedure.noteViolation`: a violation is noted.
* `Procedure.frame`: a whole procedure around the statements of a rule.
-/

namespace RegisterRules

namespace Procedure

/-- A text as a literal. -/
def text (s : String) : Expr := .literal (.text s)

/-- A natural number as a literal. Columns and table parts are far inside the range of numbers, so
the zero behind the conversion is never used. -/
def number (n : Nat) : Expr := .literal (.number ((Binary64.ofNat? n).getD .zero))

/-- The operator of generated code for an operator of rules. -/
def infixOf : Operator → Infix
  | .or => .or
  | .and => .and
  | .eq => .eq
  | .ne => .ne
  | .gt => .gt
  | .ge => .ge
  | .lt => .lt
  | .le => .le
  | .add => .add
  | .sub => .sub
  | .mul => .mul
  | .div => .div

/-! ### Tables -/

/-- The address of a column: register, table part and number. -/
def address (c : Cell) : List Expr := [text c.code, number c.part.toNat, number c.column.toNat]

/-- The value of a column in the first row of its table. -/
def cellValue (c : Cell) : Expr := .call "GetCellValue" (address c)

/-- The values of a column in all rows of its table. -/
def columnValues (c : Cell) : Expr := .call "GetColumn" (address c)

/-- The rows of a table. -/
def tableRows (id : TableId) : Expr := .call "GetRows" [text id.code, number id.part.toNat]

/-- Write a column in the first row of its table. -/
def setCell (c : Cell) (value : Expr) : Stmt := .run (.call "SetCellValue" (address c ++ [value]))

/-! ### Variables -/

/-- The variable for a row of a table. -/
def rowName : String := "row"

/-- The variable for a value of a column. -/
def valueName : String := "value"

/-- The variable for the list of violations. -/
def errorsName : String := "errors"

/-- The variable that says whether no violation was found. -/
def validName : String := "isValid"

/-- Note a violation. -/
def noteViolation (message : String) : Stmt :=
  .run (.invoke (.var errorsName) "Add" [text message])

/-- Whether the value at hand is in a set of values. -/
def containedIn (set : String) : Expr :=
  .lambda valueName (.invoke (.var set) "Contains" [.var valueName])

/-- The body of a procedure around the statements of a rule. -/
def frame (stmts : List Stmt) : List Stmt :=
  [ .declare errorsName (.create "List<string>"),
    .declare validName (.literal (.bool true)),
    .blank ] ++ stmts ++
  [ .blank,
    .ret (.var validName) ]

end Procedure

end RegisterRules
