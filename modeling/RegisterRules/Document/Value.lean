import RegisterRules.Cell
import RegisterRules.Json.Basic
import RegisterRules.Value

/-!
# Values and columns as documents

A value is an object with its type and, unless it is nothing, its content. A column reference is an
object with its four parts, which need not agree with each other.

## Main definitions

* `Value.toJson`, `Value.ofJson?`
* `Cell.toJson`, `Cell.ofJson?`
-/

namespace RegisterRules

namespace Value

/-- A value as a document. -/
def toJson : Value → Json
  | .number x => .object [("type", .string "Number"), ("value", .real x)]
  | .text s => .object [("type", .string "Text"), ("value", .string s)]
  | .bool b => .object [("type", .string "Bool"), ("value", .bool b)]
  | .null => .object [("type", .string "Null")]

/-- The value that a document describes. -/
def ofJson? (doc : Json) : Option Value := do
  let type ← (← doc.field? "type").string?
  if type = "Number" then return .number (← (← doc.field? "value").number?)
  else if type = "Text" then return .text (← (← doc.field? "value").string?)
  else if type = "Bool" then return .bool (← (← doc.field? "value").bool?)
  else if type = "Null" then
    match doc.field? "value" with
    | none => return .null
    | some .null => return .null
    | some _ => none
  else none

end Value

namespace Cell

/-- A column reference as a document. -/
def toJson (c : Cell) : Json :=
  .object
    [ ("register_code", .string c.code),
      ("table_part", .nat c.part.toNat),
      ("column", .nat c.column.toNat),
      ("digits", .string c.digits) ]

/-- The number of a table part. -/
def part? (doc : Json) : Option UInt8 := (doc.below? UInt8.size).map UInt8.ofNat

/-- The number of a column. -/
def column? (doc : Json) : Option UInt32 := (doc.below? UInt32.size).map UInt32.ofNat

/-- The column reference that a document describes. -/
def ofJson? (doc : Json) : Option Cell := do
  return {
    code := ← (← doc.field? "register_code").string?
    part := ← part? (← doc.field? "table_part")
    column := ← column? (← doc.field? "column")
    digits := ← (← doc.field? "digits").string? }

end Cell

end RegisterRules
