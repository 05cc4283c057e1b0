import RegisterRules.Procedure.OfRule

/-!
# The procedure of a phrase

A conditional is checked as a rule. Every other statement is carried out as it stands: an assignment
writes its column, a comparison has to hold, and an operation on a register compares or sums a
column.

## Main definitions

* `Phrase.toExpr`: a phrase as an expression of generated code.
* `Phrase.operationStatements`: the statements of an operation on a register.
* `Phrase.statements`: the statements of any phrase.
-/

namespace RegisterRules

namespace Phrase

open Procedure

/-- A phrase as an expression. Binary operators stand in brackets. Only columns, literals and binary
operators are expressions; of several other phrases the leftmost is the cause of the error. -/
def toExpr : Phrase → Except TargetError Expr
  | .cell c => .ok (cellValue c)
  | .literal value => .ok (.literal value)
  | .binary left op right =>
    match toExpr left with
    | .error e => .error e
    | .ok l =>
      match toExpr right with
      | .error e => .error e
      | .ok r => .ok (.group (.binary l (infixOf op) r))
  | other => .error (.unexpectedPhrase other.label)

/-- The statements that check how the values of one column are contained in another. -/
def containment (method comment message : String) (source target : Cell) : List Stmt :=
  [ .comment comment,
    .declare "sourceValues" (columnValues source),
    .declare "targetValues" (columnValues target),
    .andAssign validName (.invoke (.var "sourceValues") method [containedIn "targetValues"]),
    .ifThen (.not (.var validName)) [noteViolation message] ]

/-- The statements that write the sum of a column. -/
def summation (source target : Cell) : List Stmt :=
  let decimal : Expr := .lambda valueName (.call "Convert.ToDecimal" [.var valueName])
  [ .comment ("sum of " ++ source.display ++ " into " ++ target.display),
    .declare "sum" (.invoke (.invoke (columnValues source) "Select" [decimal]) "Sum" []),
    setCell target (.var "sum") ]

/-- The statements of an operation on a register. The other column belongs to the same table as the
source. -/
def operationStatements (kind : TableOperation) (source : Cell) (column : Option UInt32) :
    Except TargetError (List Stmt) :=
  match column with
  | none => .error (.missingColumn kind.name)
  | some column =>
    let target := source.atColumn column
    let between := source.display ++ " are contained in " ++ target.display
    let single := source.display ++ " is contained in " ++ target.display
    match kind with
    | .containsAll =>
      .ok (containment "All" ("all values of " ++ between) ("Not all values of " ++ between)
        source target)
    | .containsAny =>
      .ok (containment "Any" ("at least one value of " ++ single) ("No value of " ++ single)
        source target)
    | .sum => .ok (summation source target)
    | other => .error (.unsupportedOperation other.name)

/-- The statements of a phrase. A lone column or literal is no statement. -/
def statements (phrase : Phrase) : Except TargetError (List Stmt) :=
  match Rule.ofPhrase? phrase with
  | some rule => rule.statements
  | none =>
    match phrase with
    | .assignment target value =>
      match value.toExpr with
      | .error e => .error e
      | .ok e => .ok [setCell target e]
    | .binary .. =>
      match phrase.toExpr with
      | .error e => .error e
      | .ok e => .ok [.andAssign validName e]
    | .operation kind source column => operationStatements kind source column
    | .filteredOperation kind source _ column => operationStatements kind source column
    | other => .error (.unexpectedPhrase other.label)

end Phrase

end RegisterRules
