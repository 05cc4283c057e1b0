import RegisterRules.Number.Layout

/-!
# Values

A value is what a literal of a rule stands for and what a column of a register holds: a number, a
text, a truth value, or nothing. The numbers are the finite ones: a table with an infinity in it, or
with something that is not a number, is outside this library.

A value has three written forms. `display` is the bare one. `source` is the one in rules, where a
text stands in quotes and nothing is called `пусто`. `literal` is the one in generated code, where
quotes, backslashes and line breaks of a text are escaped.

## Main definitions

* `Value`: the four kinds of values.
* `Value.equal`: equality of values, numbers being compared as numbers.
* `Value.display`, `Value.source`, `Value.literal`: the written forms.
-/

namespace RegisterRules

/-- A literal of a rule, or the content of a column. -/
inductive Value where
  | number (value : Binary64)
  | text (value : String)
  | bool (value : Bool)
  | null
deriving DecidableEq

namespace Value

/-- A column that was never written holds nothing. -/
instance : Inhabited Value := ⟨.null⟩

/-- Equality of values. Numbers are compared as numbers, so the two zeros are equal. -/
def equal : Value → Value → Bool
  | .number x, .number y => x.equal y
  | .text s, .text t => s == t
  | .bool a, .bool b => a == b
  | .null, .null => true
  | _, _ => false

/-- The number that a value is. -/
def number? : Value → Option Binary64
  | .number x => some x
  | _ => none

/-- The text that a value is. -/
def text? : Value → Option String
  | .text s => some s
  | _ => none

/-- The truth value that a value is. -/
def bool? : Value → Option Bool
  | .bool b => some b
  | _ => none

/-- Whether a value is nothing. -/
def isNull : Value → Bool
  | .null => true
  | _ => false

/-! ### Written forms -/

/-- The bare text of a value. -/
def display : Value → String
  | .number x => x.text .positional
  | .text s => s
  | .bool true => "true"
  | .bool false => "false"
  | .null => "null"

/-- The spelling of a value in a rule. -/
def source : Value → String
  | .text s => "\"" ++ s ++ "\""
  | .null => "пусто"
  | value => value.display

/-- A character of a text literal in generated code. -/
def escaped (c : Char) : List Char :=
  if c = '\\' then ['\\', '\\']
  else if c = '"' then ['\\', '"']
  else if c = '\n' then ['\\', 'n']
  else if c = '\r' then ['\\', 'r']
  else if c = '\t' then ['\\', 't']
  else [c]

/-- A text literal in generated code. -/
def quoted (s : String) : List Char := '"' :: (s.toList.flatMap escaped ++ ['"'])

/-- The spelling of a value in generated code. -/
def literal : Value → String
  | .text s => String.ofList (quoted s)
  | value => value.display

end Value

end RegisterRules
