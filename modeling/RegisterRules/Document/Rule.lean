import RegisterRules.Document.Value
import RegisterRules.Rule

/-!
# Rules as documents

## Main definitions

* `Condition.toJson`, `Condition.ofJson?`
* `Assignment.toJson`, `Assignment.ofJson?`
* `Rule.toJson`, `Rule.ofJson?`
-/

namespace RegisterRules

/-- An alternative of a type as a document: its name and its content. -/
def Json.tagged (kind : String) (value : Json) : Json :=
  .object [("kind", .string kind), ("value", value)]

namespace Operand

/-- An operand as a document. -/
def toJson : Operand → Json
  | .literal value => .tagged "Literal" value.toJson
  | .cell c => .tagged "Cell" c.toJson

/-- The operand that a document describes. -/
def ofJson? (doc : Json) : Option Operand := do
  let kind ← (← doc.field? "kind").string?
  let value ← doc.field? "value"
  if kind = "Literal" then (Value.ofJson? value).map .literal
  else if kind = "Cell" then (Cell.ofJson? value).map .cell
  else none

end Operand

namespace Condition

/-- A condition as a document. -/
def toJson (c : Condition) : Json :=
  .object
    [ ("cell", c.cell.toJson),
      ("operator", .string c.operator.name),
      ("operand", c.operand.toJson),
      ("logical", .string c.connective.name) ]

/-- The condition that a document describes. -/
def ofJson? (doc : Json) : Option Condition := do
  return {
    cell := ← Cell.ofJson? (← doc.field? "cell")
    operator := ← Operator.ofName? (← (← doc.field? "operator").string?)
    operand := ← Operand.ofJson? (← doc.field? "operand")
    connective := ← Connective.ofName? (← (← doc.field? "logical").string?) }

end Condition

namespace AssignedValue

/-- An assigned value as a document. -/
def toJson : AssignedValue → Json
  | .cell c => .tagged "Cell" c.toJson
  | .literal value => .tagged "Literal" value.toJson
  | .unresolved text => .tagged "Unresolved" (.string text)

/-- The assigned value that a document describes. -/
def ofJson? (doc : Json) : Option AssignedValue := do
  let kind ← (← doc.field? "kind").string?
  let value ← doc.field? "value"
  if kind = "Cell" then (Cell.ofJson? value).map .cell
  else if kind = "Literal" then (Value.ofJson? value).map .literal
  else if kind = "Unresolved" then value.string?.map .unresolved
  else none

end AssignedValue

namespace Assignment

/-- An assignment as a document. -/
def toJson (a : Assignment) : Json :=
  .object [("target", a.target.toJson), ("value", a.value.toJson)]

/-- The assignment that a document describes. -/
def ofJson? (doc : Json) : Option Assignment := do
  return {
    target := ← Cell.ofJson? (← doc.field? "target")
    value := ← AssignedValue.ofJson? (← doc.field? "value") }

end Assignment

namespace Rule

/-- A rule as a document. -/
def toJson (r : Rule) : Json :=
  .object
    [ ("conditions", .array (r.conditions.map Condition.toJson)),
      ("then_assignment", r.consequent.toJson),
      ("else_assignment", .ofOption (r.alternative.map Assignment.toJson)) ]

/-- The rule that a document describes. -/
def ofJson? (doc : Json) : Option Rule := do
  return {
    conditions := ← (← doc.field? "conditions").list? Condition.ofJson?
    consequent := ← Assignment.ofJson? (← doc.field? "then_assignment")
    alternative := ← doc.optional? "else_assignment" Assignment.ofJson? }

end Rule

end RegisterRules
