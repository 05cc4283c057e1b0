import RegisterRules.Phrase

/-!
# Rules

A rule describes one conditional: a flat list of comparisons, each with the word that joins it to
the one before, and what each branch assigns. However the condition was bracketed, the comparisons
stand in the order of the source.

## Main definitions

* `Connective`, `Condition`, `Assignment`, `Rule`: the parts of a rule and the whole.
* `Rule.conditionsOf`: the comparisons of a condition.
* `Rule.ofPhrase?`: the rule of a conditional.
* `Rule.summary`: a rule as text.
* `Rule.registers`, `Rule.columns`: what the conditions of a rule read.
-/

namespace RegisterRules

/-- How a condition is joined to the one before it. -/
inductive Connective where
  /-- Not at all: it is the first. -/
  | first
  | and
  | or
deriving DecidableEq

namespace Connective

/-- Every connective. -/
def all : List Connective := [.first, .and, .or]

/-- The name of a connective in documents. -/
def name : Connective → String
  | .first => "None"
  | .and => "And"
  | .or => "Or"

/-- The connective with the given name. -/
def ofName? (name : String) : Option Connective := all.find? (·.name == name)

@[simp] theorem ofName?_name (c : Connective) : ofName? c.name = some c := by
  cases c <;> decide

/-- The keyword of a connective; the first condition has none. -/
def keyword : Connective → String
  | .first => ""
  | .and => "и"
  | .or => "или"

end Connective

/-- The right side of a comparison. -/
inductive Operand where
  | literal (value : Value)
  | cell (cell : Cell)
deriving DecidableEq

namespace Operand

/-- The text of an operand. -/
def display : Operand → String
  | .literal value => value.source
  | .cell c => c.display

/-- Whether an operand is a literal. -/
def isLiteral : Operand → Bool
  | .literal _ => true
  | .cell _ => false

end Operand

/-- One comparison of a rule. -/
structure Condition where
  /-- The left side; blank if it was no column. -/
  cell : Cell
  operator : Operator
  operand : Operand
  connective : Connective
deriving DecidableEq

/-- The text of a comparison, with its connective in front. -/
def Condition.display (c : Condition) : String :=
  (match c.connective with
    | .first => ""
    | connective => connective.keyword ++ " ") ++
  c.cell.display ++ " " ++ c.operator.symbol ++ " " ++ c.operand.display

/-- What a branch assigns. -/
inductive AssignedValue where
  | cell (cell : Cell)
  | literal (value : Value)
  /-- An expression, kept as text only. -/
  | unresolved (text : String)
deriving DecidableEq

/-- The assignment of a branch. -/
structure Assignment where
  target : Cell
  value : AssignedValue
deriving DecidableEq

namespace Assignment

/-- Whether a branch assigns a literal. -/
def isLiteral (a : Assignment) : Bool :=
  match a.value with
  | .literal _ => true
  | _ => false

/-- The text of an assignment; an expression stands in square brackets. -/
def display (a : Assignment) : String :=
  a.target.display ++ " = " ++
    match a.value with
    | .cell c => c.display
    | .literal value => value.source
    | .unresolved text => "[" ++ text ++ "]"

end Assignment

/-- A conditional, taken apart. -/
structure Rule where
  /-- The comparisons in the order of the source. -/
  conditions : List Condition
  /-- What holds if the condition does. -/
  consequent : Assignment
  /-- What holds if the condition fails. -/
  alternative : Option Assignment
deriving DecidableEq

namespace Rule

/-! ### From a conditional to a rule -/

/-- The column on the left of a comparison; blank if there is none. -/
def leftCell : Phrase → Cell
  | .cell c => c
  | _ => Cell.blank

/-- The operand on the right of a comparison; anything but a column or a literal counts as
nothing. -/
def rightOperand : Phrase → Operand
  | .cell c => .cell c
  | .literal value => .literal value
  | _ => .literal .null

/-- The comparisons of a condition, from left to right. What stands to the right of `и` or `или`
takes that connective; what stands to the left keeps the one from outside. A phrase that is neither
a comparison nor joined by an operator contributes nothing. -/
def conditionsOf (connective : Connective) : Phrase → List Condition
  | .binary left op right =>
    match op with
    | .or => conditionsOf connective left ++ conditionsOf .or right
    | .and => conditionsOf connective left ++ conditionsOf .and right
    | op =>
      if op.isComparison then [⟨leftCell left, op, rightOperand right, connective⟩]
      else conditionsOf connective left ++ conditionsOf connective right
  | _ => []

/-- What a phrase assigns: a column, a literal, or the text of anything else. -/
def assignedValue : Phrase → AssignedValue
  | .cell c => .cell c
  | .literal value => .literal value
  | other => .unresolved other.source

/-- The rule of a conditional. -/
def ofPhrase? : Phrase → Option Rule
  | .conditional condition target value =>
    some ⟨conditionsOf .first condition, ⟨target, assignedValue value⟩, none⟩
  | .conditionalElse condition target value otherTarget otherValue =>
    some ⟨conditionsOf .first condition, ⟨target, assignedValue value⟩,
      some ⟨otherTarget, assignedValue otherValue⟩⟩
  | _ => none

/-! ### Views of a rule -/

/-- A rule as text. -/
def summary (r : Rule) : String :=
  "если " ++ " ".intercalate (r.conditions.map Condition.display) ++
    " то " ++ r.consequent.display ++
    match r.alternative with
    | some a => " иначе " ++ a.display
    | none => ""

/-- The register codes that the conditions read, in the order in which they first occur. -/
def registers (r : Rule) : List String := (r.conditions.map (·.cell.code)).eraseDups

/-- The columns of a register that the conditions read, in the order in which they first occur. -/
def columns (r : Rule) (register : String) : List UInt32 :=
  ((r.conditions.filter (·.cell.code == register)).map (·.cell.column)).eraseDups

end Rule

end RegisterRules
