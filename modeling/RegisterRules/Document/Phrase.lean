import RegisterRules.Document.Value
import RegisterRules.Phrase

/-!
# Phrases as documents

A phrase is an object with one field, whose name is the kind of the phrase. What is missing in a
phrase is written as `null`, and may be left out in a document that is read.

Documents are read from the outside in. A phrase stands deeper in the document than the phrase
around it, so the depth of the document leaves room for all of them.

## Main definitions

* `Phrase.toJson`, `Phrase.ofJson?`
-/

namespace RegisterRules

namespace Phrase

/-- The body of an assignment as a document. -/
def assignmentJson (target : Cell) (value : Json) : Json :=
  .object [("target", target.toJson), ("value", value)]

/-- The body of an operation as a document. -/
def operationJson (kind : TableOperation) (source : Cell) (condition : Json)
    (column : Option UInt32) : Json :=
  .object
    [ ("kind", .string kind.name),
      ("source", source.toJson),
      ("condition", condition),
      ("target_column", .ofOption (column.map fun n => .nat n.toNat)) ]

/-- A phrase as a document. -/
def toJson : Phrase → Json
  | .conditional condition target value =>
    .object [("If", .object
      [ ("condition", toJson condition),
        ("then_branch", assignmentJson target (toJson value)),
        ("else_branch", .null) ])]
  | .conditionalElse condition target value otherTarget otherValue =>
    .object [("If", .object
      [ ("condition", toJson condition),
        ("then_branch", assignmentJson target (toJson value)),
        ("else_branch", assignmentJson otherTarget (toJson otherValue)) ])]
  | .binary left op right =>
    .object [("Binary", .object
      [ ("left", toJson left),
        ("op", .string op.name),
        ("right", toJson right) ])]
  | .assignment target value => .object [("Assignment", assignmentJson target (toJson value))]
  | .literal value => .object [("Literal", value.toJson)]
  | .cell c => .object [("Cell", c.toJson)]
  | .operation kind source column =>
    .object [("RegisterOperation", operationJson kind source .null column)]
  | .filteredOperation kind source condition column =>
    .object [("RegisterOperation", operationJson kind source (toJson condition) column)]

/-- The assignment that a document describes, its value read by `read`. -/
def assignmentOf? (read : Json → Option Phrase) (doc : Json) : Option (Cell × Phrase) := do
  let target ← Cell.ofJson? (← doc.field? "target")
  let value ← read (← doc.field? "value")
  return (target, value)

/-- The conditional that a document describes. -/
def conditionalOf? (read : Json → Option Phrase) (doc : Json) : Option Phrase := do
  let condition ← read (← doc.field? "condition")
  let (target, value) ← assignmentOf? read (← doc.field? "then_branch")
  match ← doc.optional? "else_branch" (assignmentOf? read) with
  | none => return .conditional condition target value
  | some (otherTarget, otherValue) =>
    return .conditionalElse condition target value otherTarget otherValue

/-- The binary phrase that a document describes. -/
def binaryOf? (read : Json → Option Phrase) (doc : Json) : Option Phrase := do
  let left ← read (← doc.field? "left")
  let op ← Operator.ofName? (← (← doc.field? "op").string?)
  let right ← read (← doc.field? "right")
  return .binary left op right

/-- The operation on a register that a document describes. -/
def operationOf? (read : Json → Option Phrase) (doc : Json) : Option Phrase := do
  let kind ← TableOperation.ofName? (← (← doc.field? "kind").string?)
  let source ← Cell.ofJson? (← doc.field? "source")
  let column ← doc.optional? "target_column" Cell.column?
  match ← doc.optional? "condition" read with
  | none => return .operation kind source column
  | some condition => return .filteredOperation kind source condition column

/-- The phrase that a document describes, read to a depth of `room`. -/
def ofJsonWithin? : Nat → Json → Option Phrase
  | 0, _ => none
  | room + 1, .object [(kind, body)] =>
    if kind = "If" then conditionalOf? (ofJsonWithin? room) body
    else if kind = "Binary" then binaryOf? (ofJsonWithin? room) body
    else if kind = "Assignment" then
      (assignmentOf? (ofJsonWithin? room) body).map fun (target, value) => .assignment target value
    else if kind = "Literal" then (Value.ofJson? body).map .literal
    else if kind = "Cell" then (Cell.ofJson? body).map .cell
    else if kind = "RegisterOperation" then operationOf? (ofJsonWithin? room) body
    else none
  | _ + 1, _ => none

/-- The phrase that a document describes. -/
def ofJson? (doc : Json) : Option Phrase := ofJsonWithin? doc.depth doc

end Phrase

end RegisterRules
