import RegisterRules.Number.Decimal

/-!
# JSON documents

A document keeps the order of its fields. Whole numbers and other numbers are kept apart: a whole
number is written without point and exponent, and has any size.

## Main definitions

* `Json`: a document.
* `Json.depth`: how deep a document is nested.
* `Json.field?`, `Json.optional?`: a field of an object.
* `Json.nat?`, `Json.number?`, `Json.string?`, `Json.bool?`, `Json.array?`: the contents of a
  document of one kind.
-/

namespace RegisterRules

/-- A JSON document. -/
inductive Json where
  | null
  | bool (value : Bool)
  | int (value : Int)
  | real (value : Binary64)
  | string (value : String)
  | array (items : List Json)
  | object (fields : List (String × Json))

namespace Json

mutual

/-- How many arrays and objects stand one in another at the deepest place of a document. -/
def depth : Json → Nat
  | .array items => itemDepth items + 1
  | .object fields => fieldDepth fields + 1
  | _ => 0

/-- The depth of the deepest item. -/
def itemDepth : List Json → Nat
  | [] => 0
  | item :: items => max (depth item) (itemDepth items)

/-- The depth of the deepest field. -/
def fieldDepth : List (String × Json) → Nat
  | [] => 0
  | (_, value) :: fields => max (depth value) (fieldDepth fields)

end

/-- A natural number as a document. -/
def nat (n : Nat) : Json := .int n

/-- An optional document, `null` when it is missing. -/
def ofOption : Option Json → Json
  | some value => value
  | none => .null

/-- The field of an object with the given name. -/
def field? (name : String) : Json → Option Json
  | .object fields => fields.lookup name
  | _ => none

/-- An optional field: `some none` when it is missing or `null`, `none` when it is present and
`read` refuses it. -/
def optional? {α : Type} (name : String) (read : Json → Option α) (doc : Json) :
    Option (Option α) :=
  match doc.field? name with
  | none => some none
  | some .null => some none
  | some value => (read value).map some

/-- The text of a string. -/
def string? : Json → Option String
  | .string value => some value
  | _ => none

/-- The truth value of a boolean. -/
def bool? : Json → Option Bool
  | .bool value => some value
  | _ => none

/-- A natural number, if it is written as a whole number. -/
def nat? : Json → Option Nat
  | .int (.ofNat n) => some n
  | _ => none

/-- A natural number below a bound. -/
def below? (bound : Nat) (doc : Json) : Option Nat :=
  doc.nat?.filter (· < bound)

/-- The binary64 number nearest to a number in either form. -/
def number? : Json → Option Binary64
  | .int n => Binary64.ofInt? n
  | .real x => some x
  | _ => none

/-- The items of an array. -/
def array? : Json → Option (List Json)
  | .array items => some items
  | _ => none

/-- The items of an array, each read by `read`. -/
def list? {α : Type} (read : Json → Option α) (doc : Json) : Option (List α) :=
  doc.array?.bind (·.mapM read)

end Json

end RegisterRules
