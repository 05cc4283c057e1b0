import RegisterRules.Cell

/-!
# Tokens

A token is a keyword, an operator, a bracket, a literal, a name or a character that means nothing.
It remembers where it stands: its line, counted from one, and the number of characters before it.

## Main definitions

* `Token.Kind`: the kinds of tokens, with their names in documents.
* `Token.Kind.keyword?`: the kind of a keyword.
* `Token`: a kind, a text and a place.
* `Token.isCell`, `Token.mention`: what the parser asks of a token.
-/

namespace RegisterRules

/-- The kind of a token. -/
inductive Token.Kind where
  | ifWord | thenWord | elseWord | andWord | orWord | notWord | emptyWord
  | registerWord | allColumns | allRows
  | equals | notEquals | greater | greaterOrEqual | less | lessOrEqual
  | assign | plus | minus | multiply | divide | modulo
  | openParen | closeParen | comma | dot | colon
  | number | string | identifier
  | endOfInput | invalid
deriving DecidableEq

namespace Token.Kind

/-- Every kind. -/
def all : List Kind :=
  [ .ifWord, .thenWord, .elseWord, .andWord, .orWord, .notWord, .emptyWord,
    .registerWord, .allColumns, .allRows,
    .equals, .notEquals, .greater, .greaterOrEqual, .less, .lessOrEqual,
    .assign, .plus, .minus, .multiply, .divide, .modulo,
    .openParen, .closeParen, .comma, .dot, .colon,
    .number, .string, .identifier, .endOfInput, .invalid ]

/-- The name of a kind in documents. -/
def name : Kind → String
  | .ifWord => "If"
  | .thenWord => "Then"
  | .elseWord => "Else"
  | .andWord => "And"
  | .orWord => "Or"
  | .notWord => "Not"
  | .emptyWord => "Empty"
  | .registerWord => "Register"
  | .allColumns => "AllColumns"
  | .allRows => "AllRows"
  | .equals => "Equals"
  | .notEquals => "NotEquals"
  | .greater => "Greater"
  | .greaterOrEqual => "GreaterOrEqual"
  | .less => "Less"
  | .lessOrEqual => "LessOrEqual"
  | .assign => "Assign"
  | .plus => "Plus"
  | .minus => "Minus"
  | .multiply => "Multiply"
  | .divide => "Divide"
  | .modulo => "Mod"
  | .openParen => "LParen"
  | .closeParen => "RParen"
  | .comma => "Comma"
  | .dot => "Dot"
  | .colon => "Colon"
  | .number => "Number"
  | .string => "String"
  | .identifier => "Identifier"
  | .endOfInput => "Eof"
  | .invalid => "Invalid"

/-- The kind with the given name. -/
def ofName? (name : String) : Option Kind := all.find? (·.name == name)

@[simp] theorem ofName?_name (k : Kind) : ofName? k.name = some k := by
  cases k <;> decide

/-- The keywords, in small letters. -/
def keywords : List (String × Kind) :=
  [ ("если", .ifWord), ("то", .thenWord), ("иначе", .elseWord), ("и", .andWord), ("или", .orWord),
    ("не", .notWord), ("пусто", .emptyWord), ("регистр", .registerWord),
    ("всеграфы", .allColumns), ("всезаписи", .allRows) ]

/-- The kind of a keyword, given in small letters. -/
def keyword? (word : String) : Option Kind := keywords.lookup word

/-- Whether a kind is one of the six comparisons. -/
def isComparison : Kind → Bool
  | .equals | .notEquals | .greater | .greaterOrEqual | .less | .lessOrEqual => true
  | _ => false

end Token.Kind

/-- A token and its place in the source. -/
structure Token where
  kind : Token.Kind
  text : String
  /-- The line, counted from one. -/
  line : Nat
  /-- The number of characters before the token. -/
  offset : Nat
deriving DecidableEq

namespace Token

/-- Whether a token is a name that starts with the mark of a column reference. -/
def isCell (t : Token) : Bool := t.kind == .identifier && Cell.isMarked t.text.toList

/-- A token as messages call it. -/
def mention (t : Token) : String :=
  match t.kind with
  | .endOfInput => "end of input"
  | _ => "'" ++ t.text ++ "'"

end Token

end RegisterRules
