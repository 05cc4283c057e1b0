import RegisterRules.Json.Basic
import RegisterRules.Token

/-!
# Tokens as documents

A token is an object with its kind, its text and its place.
-/

namespace RegisterRules

namespace Token

/-- A token as a document. -/
def toJson (t : Token) : Json :=
  .object
    [ ("kind", .string t.kind.name),
      ("text", .string t.text),
      ("line", .nat t.line),
      ("offset", .nat t.offset) ]

/-- The token that a document describes. -/
def ofJson? (doc : Json) : Option Token := do
  return {
    kind := ← Kind.ofName? (← (← doc.field? "kind").string?)
    text := ← (← doc.field? "text").string?
    line := ← (← doc.field? "line").nat?
    offset := ← (← doc.field? "offset").nat? }

end Token

end RegisterRules
