import RegisterRules.Diagnostic
import RegisterRules.Procedure.Access
import RegisterRules.Rule

/-!
# The procedure of a rule

A rule runs over the rows of one table, the primary one: that of its first condition. The rows for
which the conditions hold are selected, and the assignment of the branch is checked on them. If it
assigns a literal, every selected row must hold the literal in the target column. If it assigns a
column, every value of the target column must be among the values of the source column in the
selected rows. The alternative is checked in the same way on the other rows.

## Main definitions

* `Rule.primary`: the table that a rule runs over.
* `Rule.rowTest`: the conditions of a rule as a test on a row.
* `Rule.statements`: the statements that check a rule.
-/

namespace RegisterRules

namespace Rule

open Procedure

/-- The table of the first condition. A rule without conditions runs over a table that does not
exist. -/
def primary (r : Rule) : TableId :=
  match r.conditions with
  | first :: _ => first.cell.table
  | [] => ⟨"?????", 0⟩

/-- A column as seen from a row of the primary table: a column of that row, or the column of the
first row of another table. -/
def columnAt (primary : TableId) (c : Cell) : Expr :=
  if c.table = primary then .invoke (.var rowName) "GetValue" [number c.column.toNat]
  else cellValue c

/-- One condition as a test on a row, in brackets. -/
def conditionTest (primary : TableId) (c : Condition) : Expr :=
  let right := match c.operand with
    | .literal value => .literal value
    | .cell cell => columnAt primary cell
  .group (.binary (columnAt primary c.cell) (infixOf c.operator) right)

/-- The operator that joins a condition to those before it. -/
def joinOf : Connective → Infix
  | .or => .or
  | .and | .first => .and

/-- Conditions joined from left to right to a test that is already there. -/
def joined (primary : TableId) (test : Expr) (conditions : List Condition) : Expr :=
  conditions.foldl (fun test c => .binary test (joinOf c.connective) (conditionTest primary c)) test

/-- The conditions as a test on a row; without conditions every row passes. -/
def rowTest (primary : TableId) : List Condition → Expr
  | [] => .literal (.bool true)
  | first :: rest => joined primary (conditionTest primary first) rest

/-- Select the rows of the primary table that pass a test. -/
def selection (name : String) (primary : TableId) (test : Expr) : Stmt :=
  .declare name
    (.invoke (.invoke (tableRows primary) "Where" [.lambda rowName test]) "ToList" [])

/-- The statements that report an assignment which does not hold. -/
def report (valid : String) (a : Assignment) : List Stmt :=
  [ .ifThen (.not (.var valid)) [noteViolation ("Rule violated: " ++ a.display)],
    .andAssign validName (.var valid) ]

/-- The statements that check the assignment of a branch on its selected rows. -/
def check (branch : String) (primary : TableId) (a : Assignment) :
    Except TargetError (List Stmt) :=
  let rows : Expr := .var (branch ++ "Rows")
  let valid := branch ++ "Valid"
  match a.value with
  | .literal value =>
    let holds : Expr := .binary (columnAt primary a.target) .eq (.literal value)
    .ok (.declare valid (.invoke rows "All" [.lambda rowName holds]) :: report valid a)
  | .cell source =>
    let set := branch ++ "Source"
    let values : Expr :=
      .invoke (.invoke rows "Select" [.lambda rowName (columnAt primary source)]) "ToHashSet" []
    .ok (.declare set values ::
      .declare valid (.invoke (columnValues a.target) "All" [containedIn set]) :: report valid a)
  | .unresolved expression => .error (.unsupportedAssignment a.target.display expression)

/-- The statements that check a rule. -/
def statements (r : Rule) : Except TargetError (List Stmt) :=
  let test := rowTest r.primary r.conditions
  match check "then" r.primary r.consequent with
  | .error e => .error e
  | .ok consequent =>
    let first := .comment r.summary :: selection "thenRows" r.primary test :: consequent
    match r.alternative with
    | none => .ok first
    | some a =>
      match check "else" r.primary a with
      | .error e => .error e
      | .ok alternative =>
        .ok (first ++
          .blank :: selection "elseRows" r.primary (.not test.asUnit) :: alternative)

end Rule

end RegisterRules
