import RegisterRules.Diagnostic
import RegisterRules.Phrase
import RegisterRules.Token

/-!
# From tokens to a phrase

The grammar has two ladders of operators. In a condition `или` binds loosest, then `и`, then the six
comparisons; in an assigned value `+` and `-` bind looser than `*` and `/`. All of them group to the
left. Both ladders end in the same operands: a column, a literal, or the whole ladder in brackets.

A parser takes the tokens that are left and returns a phrase with those behind it, or fails at the
first token that it cannot use. Brackets may be nested `maxDepth` deep: each level of the ladder
is built from the level inside its brackets, and the innermost has none.

Tokens behind the first end of input play no part.

## Main definitions

* `Phrase.Parser.Cause`, `Phrase.Parser.Failure`: what is wrong, and at which token.
* `Phrase.Parser.condition`, `Phrase.Parser.amount`: the two ladders.
* `Phrase.Parser.statement`: a whole rule.
* `Phrase.parse`: the phrase of a token sequence.
-/

namespace RegisterRules

namespace Phrase

namespace Parser

/-- What is wrong with a token sequence. -/
inductive Cause where
  /-- A rule starts with neither `если` nor a column. -/
  | noStatement
  /-- A condition is not followed by `то`. -/
  | noThen
  /-- A column in a branch is not followed by `=`. -/
  | noAssign
  /-- A column at the start of a rule is followed by neither `=` nor `==`. -/
  | noRelation
  /-- There is no operand. -/
  | noOperand
  /-- There is no column. -/
  | noCell
  /-- A bracket is not closed. -/
  | noClosing
  /-- A column reference has too few digits or too large a column. -/
  | malformedCell
  /-- A number is no finite number. -/
  | badNumber
  /-- Too many brackets are open. -/
  | tooDeep
  /-- The rule is over. -/
  | afterEnd
deriving DecidableEq

/-- A failure, and the token at fault; `none` is the end of the tokens. -/
structure Failure where
  cause : Cause
  found : Option Token
deriving DecidableEq

/-- The message about a failure. -/
def Failure.message (f : Failure) : String :=
  let found := match f.found with
    | some t => t.mention
    | none => "end of input"
  let text := match f.found with
    | some t => t.text
    | none => ""
  match f.cause with
  | .noStatement => "Expected 'если' or a column reference, found " ++ found
  | .noThen => "Expected 'то' after condition, found " ++ found
  | .noAssign => "Expected '=' after column reference, found " ++ found
  | .noRelation => "Expected '=' or '==' after column reference, found " ++ found
  | .noOperand =>
    "Expected a column reference, number, string, 'пусто' or '(', found " ++ found
  | .noCell => "Expected a column reference, found " ++ found
  | .noClosing => "Expected ')', found " ++ found
  | .malformedCell =>
    "Malformed column reference '" ++ text ++ "': expected 'гр' followed by at least 8 digits"
  | .badNumber => "Number '" ++ text ++ "' is out of range"
  | .tooDeep => "Expression nested too deeply"
  | .afterEnd => "Unexpected " ++ found ++ " after end of rule"

/-- What a parser returns: a result and the tokens behind it, or a failure. -/
abbrev Outcome (α : Type) := Except Failure (α × List Token)

/-- Fail at the next token. -/
def fail {α : Type} (cause : Cause) (tokens : List Token) : Outcome α :=
  .error ⟨cause, tokens.head?⟩

/-- The tokens behind a token of the given kind. -/
def expect (kind : Token.Kind) (cause : Cause) : List Token → Except Failure (List Token)
  | [] => .error ⟨cause, none⟩
  | t :: rest => if t.kind = kind then .ok rest else .error ⟨cause, some t⟩

/-- A column reference. -/
def cell : List Token → Outcome Cell
  | [] => fail .noCell []
  | t :: rest =>
    if t.isCell then
      match Cell.decode? t.text with
      | some c => .ok (c, rest)
      | none => fail .malformedCell (t :: rest)
    else fail .noCell (t :: rest)

/-! ### The two ladders -/

/-- An operand: a column, a literal, or brackets around what `inside` accepts. Without `inside` no
bracket may be opened. -/
def operand (inside : Option (List Token → Outcome Phrase)) : List Token → Outcome Phrase
  | [] => fail .noOperand []
  | t :: rest =>
    if t.isCell then
      match cell (t :: rest) with
      | .error failure => .error failure
      | .ok (c, rest) => .ok (.cell c, rest)
    else
      match t.kind with
      | .number =>
        match Numeral.read? t.text.toList with
        | some x => .ok (.literal (.number x), rest)
        | none => fail .badNumber (t :: rest)
      | .string => .ok (.literal (.text t.text), rest)
      | .emptyWord => .ok (.literal .null, rest)
      | .openParen =>
        match inside with
        | none => fail .tooDeep (t :: rest)
        | some inside =>
          match inside rest with
          | .error failure => .error failure
          | .ok (phrase, rest) =>
            match expect .closeParen .noClosing rest with
            | .error failure => .error failure
            | .ok rest => .ok (phrase, rest)
      | _ => fail .noOperand (t :: rest)

/-- Go on with a phrase as long as operators follow, at most `room` times. -/
def chainWithin (operator? : Token.Kind → Option Operator) (item : List Token → Outcome Phrase) :
    Nat → Phrase → List Token → Outcome Phrase
  | 0, left, tokens => .ok (left, tokens)
  | _ + 1, left, [] => .ok (left, [])
  | room + 1, left, t :: rest =>
    match operator? t.kind with
    | none => .ok (left, t :: rest)
    | some op =>
      match item rest with
      | .error failure => .error failure
      | .ok (right, rest) => chainWithin operator? item room (.binary left op right) rest

/-- Items with operators between them, grouped to the left. Each operator is a token, so the number
of tokens leaves room for all of them. -/
def chain (operator? : Token.Kind → Option Operator) (item : List Token → Outcome Phrase)
    (tokens : List Token) : Outcome Phrase :=
  match item tokens with
  | .error failure => .error failure
  | .ok (first, rest) => chainWithin operator? item rest.length first rest

/-- The operator that joins alternatives. -/
def orOperator? : Token.Kind → Option Operator
  | .orWord => some .or
  | _ => none

/-- The operator that joins requirements. -/
def andOperator? : Token.Kind → Option Operator
  | .andWord => some .and
  | _ => none

/-- The comparisons. -/
def comparison? : Token.Kind → Option Operator
  | .equals => some .eq
  | .notEquals => some .ne
  | .greater => some .gt
  | .greaterOrEqual => some .ge
  | .less => some .lt
  | .lessOrEqual => some .le
  | _ => none

/-- The operators of sums. -/
def sumOperator? : Token.Kind → Option Operator
  | .plus => some .add
  | .minus => some .sub
  | _ => none

/-- The operators of products. -/
def productOperator? : Token.Kind → Option Operator
  | .multiply => some .mul
  | .divide => some .div
  | _ => none

/-- A condition with the given parser for what stands in brackets. -/
def conditionOver (inside : Option (List Token → Outcome Phrase)) : List Token → Outcome Phrase :=
  chain orOperator? (chain andOperator? (chain comparison? (operand inside)))

/-- An assigned value with the given parser for what stands in brackets. -/
def amountOver (inside : Option (List Token → Outcome Phrase)) : List Token → Outcome Phrase :=
  chain sumOperator? (chain productOperator? (operand inside))

/-- A condition in which brackets may be nested to a depth. -/
def condition : Nat → List Token → Outcome Phrase
  | 0 => conditionOver none
  | depth + 1 => conditionOver (some (condition depth))

/-- An assigned value in which brackets may be nested to a depth. -/
def amount : Nat → List Token → Outcome Phrase
  | 0 => amountOver none
  | depth + 1 => amountOver (some (amount depth))

/-- How deep brackets may be nested. -/
def maxDepth : Nat := 64

/-! ### Statements -/

/-- An assignment in a branch of a conditional. -/
def assignment (tokens : List Token) : Outcome (Cell × Phrase) :=
  match cell tokens with
  | .error failure => .error failure
  | .ok (target, rest) =>
    match expect .assign .noAssign rest with
    | .error failure => .error failure
    | .ok rest =>
      match amount maxDepth rest with
      | .error failure => .error failure
      | .ok (value, rest) => .ok ((target, value), rest)

/-- The branches of a conditional behind its condition. -/
def branches (test : Phrase) (tokens : List Token) : Outcome Phrase :=
  match assignment tokens with
  | .error failure => .error failure
  | .ok ((target, value), []) => .ok (.conditional test target value, [])
  | .ok ((target, value), t :: rest) =>
    if t.kind = .elseWord then
      match assignment rest with
      | .error failure => .error failure
      | .ok ((otherTarget, otherValue), rest) =>
        .ok (.conditionalElse test target value otherTarget otherValue, rest)
    else .ok (.conditional test target value, t :: rest)

/-- A conditional behind its first keyword. -/
def conditional (tokens : List Token) : Outcome Phrase :=
  match condition maxDepth tokens with
  | .error failure => .error failure
  | .ok (test, rest) =>
    match expect .thenWord .noThen rest with
    | .error failure => .error failure
    | .ok rest => branches test rest

/-- A bare assignment, or a bare comparison of a column with `==`. -/
def bare (tokens : List Token) : Outcome Phrase :=
  match cell tokens with
  | .error failure => .error failure
  | .ok (_, []) => fail .noRelation []
  | .ok (target, t :: rest) =>
    if t.kind = .assign then
      match amount maxDepth rest with
      | .error failure => .error failure
      | .ok (value, rest) => .ok (.assignment target value, rest)
    else if t.kind = .equals then
      match condition maxDepth rest with
      | .error failure => .error failure
      | .ok (right, rest) => .ok (.binary (.cell target) .eq right, rest)
    else fail .noRelation (t :: rest)

/-- A rule. -/
def statement : List Token → Outcome Phrase
  | [] => fail .noStatement []
  | t :: rest =>
    if t.kind = .ifWord then conditional rest
    else if t.isCell then bare (t :: rest)
    else fail .noStatement (t :: rest)

/-- A rule with nothing behind it. -/
def whole (tokens : List Token) : Except Failure Phrase :=
  match statement tokens with
  | .error failure => .error failure
  | .ok (phrase, []) => .ok phrase
  | .ok (_, t :: _) => .error ⟨.afterEnd, some t⟩

end Parser

/-! ### The end of input -/

/-- The tokens before the first end of input. -/
def content (tokens : List Token) : List Token := tokens.takeWhile (·.kind ≠ .endOfInput)

/-- Where a token sequence ends: at its first end of input or else right behind its last token.
Offsets are counted modulo `2 ^ 64`. -/
def ending (tokens : List Token) : Location :=
  match tokens.find? (·.kind = .endOfInput) with
  | some t => ⟨t.line, t.offset⟩
  | none =>
    match tokens.getLast? with
    | some t => ⟨t.line, (t.offset + t.text.length) % UInt64.size⟩
    | none => ⟨1, 0⟩

/-- The error about a failure in a token sequence that ends at the given place. -/
def Parser.Failure.toError (f : Parser.Failure) (stop : Location) : SourceError :=
  match f.found with
  | some t => ⟨f.message, t.line, t.offset⟩
  | none => ⟨f.message, stop.line, stop.offset⟩

/-- The phrase that a token sequence spells. -/
def parse (tokens : List Token) : Except SourceError Phrase :=
  match Parser.whole (content tokens) with
  | .ok phrase => .ok phrase
  | .error failure => .error (failure.toError (ending tokens))

end Phrase

end RegisterRules
