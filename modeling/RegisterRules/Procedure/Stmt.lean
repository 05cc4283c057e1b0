import RegisterRules.Procedure.Expr

/-!
# Statements and procedures of generated code

A procedure is written line by line. Every statement takes one line, a conditional one more for each
of its braces and those of its body; a line is indented by the depth of its block. Texts from a rule
cannot add lines: a literal has its line breaks escaped, and in a comment they become spaces.

## Main definitions

* `Procedure.Stmt`: the statements.
* `Procedure.Stmt.lines`: the lines of a statement.
* `Procedure`: a name and a body.
* `Procedure.render`: the text of a procedure.
-/

namespace RegisterRules

namespace Procedure

/-- A statement of generated code. -/
inductive Stmt where
  | comment (text : String)
  | blank
  /-- A new variable. -/
  | declare (name : String) (value : Expr)
  /-- An expression for its effect. -/
  | run (value : Expr)
  /-- A variable stays true only if the value is. -/
  | andAssign (name : String) (value : Expr)
  | ifThen (condition : Expr) (body : List Stmt)
  | ret (value : Expr)

/-- A line of text at a depth, each level indented by `indent` spaces. -/
def line (indent depth : Nat) (text : String) : String :=
  String.ofList (List.replicate (depth * indent) ' ') ++ text

/-- A text on one line: line breaks become spaces. -/
def oneLine (text : String) : String :=
  String.ofList (text.toList.map fun c => if c = '\r' ∨ c = '\n' then ' ' else c)

mutual

/-- The lines of a statement at a depth. -/
def Stmt.lines (indent depth : Nat) : Stmt → List String
  | .comment text => [line indent depth ("// " ++ oneLine text)]
  | .blank => [""]
  | .declare name value => [line indent depth ("var " ++ name ++ " = " ++ value.render ++ ";")]
  | .run value => [line indent depth (value.render ++ ";")]
  | .andAssign name value => [line indent depth (name ++ " &= " ++ value.render ++ ";")]
  | .ifThen condition body =>
    line indent depth ("if (" ++ condition.render ++ ")") ::
      line indent depth "\x7b" ::
      (Stmt.blockLines indent (depth + 1) body ++ [line indent depth "\x7d"])
  | .ret value => [line indent depth ("return " ++ value.render ++ ";")]

/-- The lines of several statements at a depth. -/
def Stmt.blockLines (indent depth : Nat) : List Stmt → List String
  | [] => []
  | stmt :: rest => Stmt.lines indent depth stmt ++ Stmt.blockLines indent depth rest

end

end Procedure

/-- A procedure without parameters that returns a truth value. -/
structure Procedure where
  name : String
  body : List Procedure.Stmt

namespace Procedure

/-- The lines of a procedure. -/
def lines (indent : Nat) (p : Procedure) : List String :=
  ("public bool " ++ p.name ++ "()") :: "\x7b" ::
    (Stmt.blockLines indent 1 p.body ++ ["\x7d"])

/-- The text of a procedure: its lines, each with a line break behind it. -/
def render (indent : Nat) (p : Procedure) : String :=
  String.join ((p.lines indent).map (· ++ "\n"))

end Procedure

end RegisterRules
