import RegisterRules.Phrase.Parser
import RegisterRules.Procedure.OfPhrase
import RegisterRules.Token.Scanner

/-!
# Compilation

A rule goes from source text through tokens, a phrase and, if it is a conditional, a rule to the
text of a procedure. An observer is shown what each stage has made. It has a state of its own and no
way to act on the compilation.

## Main definitions

* `Settings`: the name of the procedure and the width of its indentation.
* `Settings.procedureFor`, `Settings.procedureForRule`: the text of a procedure for a phrase or a
  rule.
* `Observer`: what is shown to whom.
* `Settings.compileWith`, `Settings.compile`: the whole way, observed or not.
-/

namespace RegisterRules

/-- How a procedure is written. -/
structure Settings where
  /-- The name of the procedure. -/
  procedureName : String := "Validate"
  /-- The spaces for each level of nesting. Any number will do here. A machine has no memory for a
  line of `2 ^ 63` spaces or more, so with such a width no procedure is ever written on one. -/
  indentWidth : Nat := 4
deriving DecidableEq

/-- An observer with a state: what it makes of the tokens, the phrase and the rule it is shown. -/
structure Observer (σ : Type) where
  sawTokens : List Token → σ → σ
  sawPhrase : Phrase → σ → σ
  sawRule : Rule → σ → σ

/-- The observer that takes no notice. -/
def Observer.silent (σ : Type) : Observer σ := ⟨fun _ s => s, fun _ s => s, fun _ s => s⟩

namespace Settings

/-- The text of the procedure around the statements of a rule. -/
def render (settings : Settings) (stmts : List Procedure.Stmt) : String :=
  Procedure.render settings.indentWidth ⟨settings.procedureName, Procedure.frame stmts⟩

/-- The text of the procedure for a phrase. -/
def procedureFor (settings : Settings) (phrase : Phrase) : Except TargetError String :=
  phrase.statements.map settings.render

/-- The text of the procedure for a rule. -/
def procedureForRule (settings : Settings) (rule : Rule) : Except TargetError String :=
  rule.statements.map settings.render

/-- Compile a source text and show each stage to an observer. -/
def compileWith {σ : Type} (settings : Settings) (observer : Observer σ) (source : String)
    (state : σ) : Except Diagnostic String × σ :=
  let tokens := Token.scan source
  let state := observer.sawTokens tokens state
  match Phrase.parse tokens with
  | .error e => (.error e.diagnostic, state)
  | .ok phrase =>
    let state := observer.sawPhrase phrase state
    match Rule.ofPhrase? phrase with
    | some rule =>
      ((settings.procedureForRule rule).mapError TargetError.diagnostic,
        observer.sawRule rule state)
    | none => ((settings.procedureFor phrase).mapError TargetError.diagnostic, state)

/-- Compile a source text. -/
def compile (settings : Settings) (source : String) : Except Diagnostic String :=
  (settings.compileWith (Observer.silent Unit) source ()).1

end Settings

end RegisterRules
