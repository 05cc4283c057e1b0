import RegisterRules.Value

/-!
# Expressions of generated code

An expression is written on one line. Brackets are put in where the order of the operators needs
them: binary operators group to the left, so a right operand of equal strength needs brackets and a
left one does not. A lambda reaches as far to the right as it can and gets brackets inside any
operator.

## Main definitions

* `Procedure.Infix`: the binary operators and their binding strengths.
* `Procedure.Expr`: the expressions.
* `Procedure.Expr.asUnit`: an expression that stands as one unit.
* `Procedure.Expr.render`: the text of an expression.
-/

namespace RegisterRules

namespace Procedure

/-- A binary operator of generated code. -/
inductive Infix where
  | or | and | eq | ne | lt | le | gt | ge | add | sub | mul | div | rem
  /-- Any other text between two operands. -/
  | other (symbol : String)
deriving DecidableEq

namespace Infix

/-- The operators with a binding strength of their own. -/
def known : List Infix :=
  [.or, .and, .eq, .ne, .lt, .le, .gt, .ge, .add, .sub, .mul, .div, .rem]

/-- The spelling of an operator. -/
def symbol : Infix → String
  | .or => "||"
  | .and => "&&"
  | .eq => "=="
  | .ne => "!="
  | .lt => "<"
  | .le => "<="
  | .gt => ">"
  | .ge => ">="
  | .add => "+"
  | .sub => "-"
  | .mul => "*"
  | .div => "/"
  | .rem => "%"
  | .other symbol => symbol

/-- The operator with the given spelling. -/
def ofSymbol (symbol : String) : Infix :=
  (known.find? (·.symbol == symbol)).getD (.other symbol)

/-- How strongly an operator binds its operands; an unknown one binds loosest. -/
def strength : Infix → Nat
  | .or => 1
  | .and => 2
  | .eq | .ne => 3
  | .lt | .le | .gt | .ge => 4
  | .add | .sub => 5
  | .mul | .div | .rem => 6
  | .other _ => 0

end Infix

/-- An expression of generated code. -/
inductive Expr where
  | literal (value : Value)
  | var (name : String)
  /-- A call of a function. -/
  | call (function : String) (args : List Expr)
  /-- A call of a method. -/
  | invoke (receiver : Expr) (method : String) (args : List Expr)
  /-- A new object. -/
  | create (type : String)
  /-- A function of one parameter. -/
  | lambda (param : String) (body : Expr)
  | binary (left : Expr) (op : Infix) (right : Expr)
  /-- Brackets. -/
  | group (inner : Expr)
  | not (inner : Expr)

namespace Expr

/-- Whether an expression needs brackets to stand as one unit. -/
def isOpen : Expr → Bool
  | .binary .. | .lambda .. => true
  | _ => false

/-- The expression in brackets, unless it already stands as one unit. -/
def asUnit (e : Expr) : Expr := if e.isOpen then .group e else e

/-- Whether an operand needs brackets: a lambda always does, a binary operator if its strength is
`tooLoose`. -/
def needsGroup (tooLoose : Nat → Bool) : Expr → Bool
  | .binary _ op _ => tooLoose op.strength
  | .lambda .. => true
  | _ => false

/-- A text in brackets if it has to be, in front of `tail`. The text is given by what it puts in
front of a text. -/
def grouped (needed : Bool) (text : List Char → List Char) (tail : List Char) : List Char :=
  if needed then '(' :: text (')' :: tail) else text tail

mutual

/-- The text of an expression, in front of `tail`. -/
def chars : Expr → List Char → List Char
  | .literal value, tail => value.literal.toList ++ tail
  | .var name, tail => name.toList ++ tail
  | .call function args, tail => function.toList ++ '(' :: argChars args (')' :: tail)
  | .invoke receiver method args, tail =>
    chars receiver ('.' :: (method.toList ++ '(' :: argChars args (')' :: tail)))
  | .create type, tail => 'n' :: 'e' :: 'w' :: ' ' :: (type.toList ++ '(' :: ')' :: tail)
  | .lambda param body, tail => param.toList ++ ' ' :: '=' :: '>' :: ' ' :: chars body tail
  | .binary left op right, tail =>
    grouped (left.needsGroup (· < op.strength)) (chars left)
      (' ' :: (op.symbol.toList ++
        ' ' :: grouped (right.needsGroup (· ≤ op.strength)) (chars right) tail))
  | .group inner, tail => grouped true (chars inner) tail
  | .not inner, tail => '!' :: grouped inner.isOpen (chars inner) tail

/-- The text of arguments, with commas between them, in front of `tail`. -/
def argChars : List Expr → List Char → List Char
  | [], tail => tail
  | arg :: args, tail => chars arg (moreArgChars args tail)

/-- The text of the arguments after the first, each with the comma before it, in front of `tail`. -/
def moreArgChars : List Expr → List Char → List Char
  | [], tail => tail
  | arg :: args, tail => ',' :: ' ' :: chars arg (moreArgChars args tail)

end

/-- The text of an expression. -/
def render (e : Expr) : String := String.ofList (e.chars [])

end Expr

end Procedure

end RegisterRules
