import RegisterRules.Document.Value
import RegisterRules.Table

/-!
# Tables as documents

A row is an object whose only field holds its columns, each under its number.
-/

namespace RegisterRules

namespace Row

/-- A row as a document. -/
def toJson (r : Row) : Json :=
  .object [("values",
    .object (r.cells.map fun (column, value) => (Text.decimal column.toNat, value.toJson)))]

/-- The number of a column that stands as the name of a field, without leading zeros. -/
def columnKey? (key : String) : Option UInt32 := do
  let n ← Text.decimal? key.toList
  if n < UInt32.size ∧ Text.decimal n = key then some (UInt32.ofNat n) else none

/-- One column of a row. -/
def cellOf? : String × Json → Option (UInt32 × Value)
  | (key, doc) => do
    return (← columnKey? key, ← Value.ofJson? doc)

/-- The row that a document describes. -/
def ofJson? (doc : Json) : Option Row := do
  match ← doc.field? "values" with
  | .object fields => return Row.ofList (← fields.mapM cellOf?)
  | _ => none

end Row

namespace Table

/-- A table as a document. -/
def toJson (t : Table) : Json :=
  .object
    [ ("code", .string t.id.code),
      ("table_part", .nat t.id.part.toNat),
      ("rows", .array (t.rows.map Row.toJson)) ]

/-- The table that a document describes. -/
def ofJson? (doc : Json) : Option Table := do
  let code ← (← doc.field? "code").string?
  let part ← Cell.part? (← doc.field? "table_part")
  let rows ← (← doc.field? "rows").list? Row.ofJson?
  return ⟨⟨code, part⟩, rows⟩

end Table

end RegisterRules
