import RegisterRules.Cell
import RegisterRules.Value

/-!
# Phrases

A phrase is a rule or a part of one: a conditional, an assignment, an operation on a register, or
an expression made of columns, literals and binary operators. Brackets leave no trace in it, since
the tree itself says what belongs together.

One type holds statements and expressions. Documents may hold phrases that no source text spells,
such as a conditional inside an expression, and every later step has to answer for those too.

## Main definitions

* `Operator`: the binary operators of the rule language.
* `TableOperation`: the operations on a register.
* `Phrase`: the phrases.
* `Phrase.source`: the text of an expression.
-/

namespace RegisterRules

/-- A binary operator of the rule language. -/
inductive Operator where
  | or | and | eq | ne | gt | ge | lt | le | add | sub | mul | div
deriving DecidableEq

namespace Operator

/-- Every operator. -/
def all : List Operator :=
  [.or, .and, .eq, .ne, .gt, .ge, .lt, .le, .add, .sub, .mul, .div]

/-- The name of an operator in documents. -/
def name : Operator → String
  | .or => "Or"
  | .and => "And"
  | .eq => "Eq"
  | .ne => "Ne"
  | .gt => "Gt"
  | .ge => "Ge"
  | .lt => "Lt"
  | .le => "Le"
  | .add => "Add"
  | .sub => "Sub"
  | .mul => "Mul"
  | .div => "Div"

/-- The operator with the given name. -/
def ofName? (name : String) : Option Operator := all.find? (·.name == name)

@[simp] theorem ofName?_name (op : Operator) : ofName? op.name = some op := by
  cases op <;> decide

/-- The spelling of an operator in a rule. -/
def symbol : Operator → String
  | .or => "или"
  | .and => "и"
  | .eq => "=="
  | .ne => "!="
  | .gt => ">"
  | .ge => ">="
  | .lt => "<"
  | .le => "<="
  | .add => "+"
  | .sub => "-"
  | .mul => "*"
  | .div => "/"

/-- Whether an operator compares two values. -/
def isComparison : Operator → Bool
  | .eq | .ne | .gt | .ge | .lt | .le => true
  | _ => false

end Operator

/-- An operation on all rows of a register. -/
inductive TableOperation where
  | containsAll | containsAny | sum | avg | max | min | count
deriving DecidableEq

namespace TableOperation

/-- Every operation. -/
def all : List TableOperation := [.containsAll, .containsAny, .sum, .avg, .max, .min, .count]

/-- The name of an operation, in documents and in messages. -/
def name : TableOperation → String
  | .containsAll => "ContainsAll"
  | .containsAny => "ContainsAny"
  | .sum => "Sum"
  | .avg => "Avg"
  | .max => "Max"
  | .min => "Min"
  | .count => "Count"

/-- The operation with the given name. -/
def ofName? (name : String) : Option TableOperation := all.find? (·.name == name)

@[simp] theorem ofName?_name (op : TableOperation) : ofName? op.name = some op := by
  cases op <;> decide

end TableOperation

/-- A rule or a part of one. -/
inductive Phrase where
  /-- If the condition holds, the target has the value. -/
  | conditional (condition : Phrase) (target : Cell) (value : Phrase)
  /-- As before, and if the condition fails, the other target has the other value. -/
  | conditionalElse (condition : Phrase) (target : Cell) (value : Phrase)
      (otherTarget : Cell) (otherValue : Phrase)
  /-- Two phrases joined by an operator. -/
  | binary (left : Phrase) (op : Operator) (right : Phrase)
  /-- A column gets a value. -/
  | assignment (target : Cell) (value : Phrase)
  /-- A literal. -/
  | literal (value : Value)
  /-- A column. -/
  | cell (cell : Cell)
  /-- An operation on the rows of a register, with the column it compares with or writes to. -/
  | operation (kind : TableOperation) (source : Cell) (column : Option UInt32)
  /-- An operation on the rows for which a condition holds. -/
  | filteredOperation (kind : TableOperation) (source : Cell) (condition : Phrase)
      (column : Option UInt32)
deriving DecidableEq

namespace Phrase

/-- The kind of a phrase as messages call it. -/
def label : Phrase → String
  | .conditional .. | .conditionalElse .. => "conditional statement"
  | .binary .. => "binary expression"
  | .assignment .. => "assignment"
  | .literal .. => "literal"
  | .cell .. => "column reference"
  | .operation .. | .filteredOperation .. => "register operation"

/-- Whether a phrase is a conditional. -/
def isConditional : Phrase → Bool
  | .conditional .. | .conditionalElse .. => true
  | _ => false

/-- Whether a phrase is joined by an operator. -/
def isBinary : Phrase → Bool
  | .binary .. => true
  | _ => false

/-- A text in brackets if it has to be. -/
def bracketed (needed : Bool) (text : String) : String :=
  if needed then "(" ++ text ++ ")" else text

/-- The text of an expression as a rule spells it. Operands that are joined by an operator stand in
brackets, whether the order of the operators needs them or not. -/
def source : Phrase → String
  | .cell c => c.display
  | .literal value => value.source
  | .binary left op right =>
    bracketed left.isBinary left.source ++ " " ++ op.symbol ++ " " ++
      bracketed right.isBinary right.source
  | other => other.label

end Phrase

end RegisterRules
