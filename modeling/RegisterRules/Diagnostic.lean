import RegisterRules.Text.Digits

/-!
# Diagnostics

A rule can fail in two ways. Its text may not be a rule: a `SourceError` says what is wrong and
where. Or it may be a rule that no procedure is made for: a `TargetError` gives the cause. Either is
reported as a `Diagnostic`, which carries a code for programs beside the message for people.

## Main definitions

* `SourceError`: a message and a place in the source.
* `TargetError`, `TargetError.message`: the causes that keep a procedure from being made.
* `Diagnostic`: code, message, suggestion and place.
* `SourceError.diagnostic`, `TargetError.diagnostic`: the report of each error.
-/

namespace RegisterRules

/-- A violation of the grammar of rules, with the place where it was found. -/
structure SourceError where
  message : String
  line : Nat
  offset : Nat
deriving DecidableEq

/-- The text of a violation: its message, then its place. -/
def SourceError.display (e : SourceError) : String :=
  e.message ++ " (line " ++ Text.decimal e.line ++ ", offset " ++ Text.decimal e.offset ++ ")"

/-- Why no procedure is made for a rule. -/
inductive TargetError where
  /-- An operation on a register names no column to compare with or to write to. -/
  | missingColumn (operation : String)
  /-- There is no procedure for an operation. -/
  | unsupportedOperation (operation : String)
  /-- A branch of a conditional assigns an arithmetic expression. -/
  | unsupportedAssignment (target expression : String)
  /-- A phrase that is no expression stands where one is needed. -/
  | unexpectedPhrase (kind : String)
deriving DecidableEq

/-- The message of a cause. -/
def TargetError.message : TargetError → String
  | .missingColumn operation => "Target column is not specified for operation " ++ operation
  | .unsupportedOperation operation => "Operation " ++ operation ++ " is not supported"
  | .unsupportedAssignment target expression =>
    "Value assigned to " ++ target ++ " is an arithmetic expression (" ++ expression ++ ")"
  | .unexpectedPhrase kind => kind ++ " cannot be used as an expression"

/-- A place in the source. -/
structure Location where
  line : Nat
  offset : Nat
deriving DecidableEq

/-- The report of a failure. -/
structure Diagnostic where
  /-- The code for programs. -/
  code : String
  /-- The message for people. -/
  message : String
  /-- What to do about it. -/
  suggestion : Option String
  /-- Where it was found, if the source is at fault. -/
  location : Option Location
deriving DecidableEq

namespace Diagnostic

/-- The code of every violation of the grammar. -/
def parseCode : String := "PARSE_ERROR"

/-- Whether the source is at fault. -/
def blamesSource (d : Diagnostic) : Bool := d.code == parseCode

/-- The text of a report: the code in brackets, the message, the place and the suggestion. -/
def display (d : Diagnostic) : String :=
  "[" ++ d.code ++ "] " ++ d.message ++
    (match d.location with
      | some l => " at " ++ Text.decimal l.line ++ ":" ++ Text.decimal l.offset
      | none => "") ++
    (match d.suggestion with
      | some s => " (suggestion: " ++ s ++ ")"
      | none => "")

end Diagnostic

/-- The report of a violation of the grammar. -/
def SourceError.diagnostic (e : SourceError) : Diagnostic :=
  { code := Diagnostic.parseCode
    message := e.message
    suggestion := some "Check rule syntax: если <condition> то <column> = <value> [иначе ...]"
    location := some ⟨e.line, e.offset⟩ }

namespace TargetError

/-- The code of a cause. -/
def code : TargetError → String
  | .missingColumn _ => "MISSING_TARGET_COLUMN"
  | .unsupportedOperation _ => "UNSUPPORTED_OPERATION"
  | .unsupportedAssignment _ _ => "UNSUPPORTED_ASSIGNMENT"
  | .unexpectedPhrase _ => "UNEXPECTED_NODE"

/-- What to do about a cause. -/
def suggestion : TargetError → Option String
  | .missingColumn _ => some "Specify the target column of the register operation"
  | .unsupportedOperation _ => some "Supported operations: ContainsAll, ContainsAny, Sum"
  | .unsupportedAssignment _ _ => some "Assign a column reference or a literal"
  | .unexpectedPhrase _ => none

/-- The report of a cause. It has no place in the source. -/
def diagnostic (e : TargetError) : Diagnostic := ⟨e.code, e.message, e.suggestion, none⟩

end TargetError

end RegisterRules
