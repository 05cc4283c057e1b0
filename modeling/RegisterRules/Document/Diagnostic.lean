import RegisterRules.Diagnostic
import RegisterRules.Json.Basic

/-!
# Diagnostics as documents

The fields of a report stand in alphabetical order, and those that are missing are left out.
-/

namespace RegisterRules

namespace Location

/-- A place as a document. -/
def toJson (l : Location) : Json := .object [("line", .nat l.line), ("offset", .nat l.offset)]

/-- The place that a document describes. -/
def ofJson? (doc : Json) : Option Location := do
  return {
    line := ← (← doc.field? "line").nat?
    offset := ← (← doc.field? "offset").nat? }

end Location

namespace Diagnostic

/-- A report as a document. -/
def toJson (d : Diagnostic) : Json :=
  .object
    ([("code", .string d.code)] ++
      (d.location.map fun l => ("location", l.toJson)).toList ++
      [("message", .string d.message)] ++
      (d.suggestion.map fun s => ("suggestion", .string s)).toList)

/-- The report that a document describes. -/
def ofJson? (doc : Json) : Option Diagnostic := do
  return {
    code := ← (← doc.field? "code").string?
    message := ← (← doc.field? "message").string?
    suggestion := ← doc.optional? "suggestion" Json.string?
    location := ← doc.optional? "location" Location.ofJson? }

end Diagnostic

end RegisterRules
