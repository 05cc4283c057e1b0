import RegisterRules.Proofs.Lines
import RegisterRules.Proofs.Satisfaction

/-!
# The outline of a rule fixes the lines of its procedure

How many lines a procedure takes does not depend on what its rule says, only on the outline: whether
it is a conditional, an assignment, a comparison or an operation on a register, and which one;
whether there is an alternative; and whether each branch assigns a literal or a column. The texts in
cells and literals do not count, whatever they hold.

Two things are shown side by side of every list of statements that is generated (`Fills`). Its
names come from a fixed vocabulary, so none of them has a line break. And its height is known, since
each kind of rule has a fixed list of statements. One lemma for each generating function says so,
and the frame adds five lines.

## Main definitions

* `Outline`: what the lines of a procedure depend on.
* `Outline.height`: how many lines the statements of a rule take.
* `Rule.outline`, `Phrase.outline?`: the outline of a rule and of a phrase.
* `Procedure.Stmt.Fills`: statements with unbroken names and a known height.

## Main results

* `Rule.fills_statements`, `Phrase.fills_statements`: the statements of a rule and of a phrase have
  the height of its outline.
* `Procedure.render_keeps_to_lines`: no text of a rule gets out of its line.
-/

namespace RegisterRules

open Procedure Text

/-! ### Outlines -/

/-- What the lines of a procedure depend on. -/
inductive Outline where
  /-- A conditional: whether it assigns a literal, and the same of its alternative if it has one. -/
  | conditional (literal : Bool) (alternative : Option Bool)
  | assignment
  | comparison
  /-- An operation on a register. -/
  | operation (kind : TableOperation)
deriving DecidableEq

namespace Outline

/-- The lines of the check of a branch. A column that is assigned takes one more, for the set of its
values. -/
def branchHeight (literal : Bool) : ℕ := if literal then 6 else 7

/-- The lines of the statements of a rule. Operations that are not supported have none. -/
def height : Outline → ℕ
  | .conditional literal none => 2 + branchHeight literal
  | .conditional literal (some other) => 2 + branchHeight literal + (2 + branchHeight other)
  | .assignment | .comparison => 1
  | .operation .containsAll | .operation .containsAny => 8
  | .operation .sum => 3
  | .operation _ => 0

end Outline

/-- The outline of a rule. -/
def Rule.outline (r : Rule) : Outline :=
  .conditional r.consequent.isLiteral (r.alternative.map Assignment.isLiteral)

namespace Phrase

/-- Whether a phrase is a literal. -/
def isLiteral : Phrase → Bool
  | .literal _ => true
  | _ => false

/-- The outline of a phrase; a lone column or literal is no statement and has none. -/
def outline? : Phrase → Option Outline
  | .conditional _ _ value => some (.conditional value.isLiteral none)
  | .conditionalElse _ _ value _ otherValue =>
    some (.conditional value.isLiteral (some otherValue.isLiteral))
  | .assignment .. => some .assignment
  | .binary .. => some .comparison
  | .operation kind _ _ | .filteredOperation kind _ _ _ => some (.operation kind)
  | .literal _ | .cell _ => none

theorem isLiteral_assignedValue (target : Cell) (value : Phrase) :
    Assignment.isLiteral ⟨target, Rule.assignedValue value⟩ = value.isLiteral := by
  cases value <;> rfl

/-- The rule of a conditional has the outline of the conditional. -/
theorem outline?_of_rule {phrase : Phrase} {rule : Rule} (h : Rule.ofPhrase? phrase = some rule) :
    phrase.outline? = some rule.outline := by
  cases phrase <;> cases h <;> simp [outline?, Rule.outline, isLiteral_assignedValue]

end Phrase

/-! ### Statements of a known height -/

namespace Procedure

/-- Statements whose names have no line breaks and that take `height` lines. -/
structure Stmt.Fills (stmts : List Stmt) (height : ℕ) : Prop where
  names : UnbrokenNames (Stmt.blockNames stmts)
  height_eq : Stmt.blockHeight stmts = height

/-- Statements one after the other. -/
theorem Stmt.Fills.append {before after : List Stmt} {m n : ℕ} (h : Fills before m)
    (h' : Fills after n) : Fills (before ++ after) (m + n) := by
  refine ⟨?_, by rw [Stmt.blockHeight_append, h.height_eq, h'.height_eq]⟩
  rw [Stmt.blockNames_append, unbrokenNames_append]
  exact ⟨h.names, h'.names⟩

/-! ### The vocabulary -/

theorem Expr.argNames_append (before after : List Expr) :
    Expr.argNames (before ++ after) = Expr.argNames before ++ Expr.argNames after := by
  induction before with
  | nil => rfl
  | cons arg before ih => rw [List.cons_append, Expr.argNames, Expr.argNames, ih, List.append_assoc]

theorem Expr.names_asUnit (e : Expr) : e.asUnit.names = e.names := by
  rw [Expr.asUnit]
  split <;> rfl

theorem unbroken_infixOf (op : Operator) : Unbroken (infixOf op).symbol.toList := by
  cases op <;> decide

theorem unbrokenNames_cellValue (c : Cell) : UnbrokenNames (cellValue c).names := by
  show UnbrokenNames ["GetCellValue"]
  decide

theorem unbrokenNames_columnValues (c : Cell) : UnbrokenNames (columnValues c).names := by
  show UnbrokenNames ["GetColumn"]
  decide

theorem unbrokenNames_setCell (c : Cell) {value : Expr} (h : UnbrokenNames value.names) :
    UnbrokenNames (setCell c value).names := by
  show UnbrokenNames ("SetCellValue" :: Expr.argNames (address c ++ [value]))
  rw [Expr.argNames_append, unbrokenNames_cons, unbrokenNames_append, Expr.argNames]
  exact ⟨by decide, unbrokenNames_nil, by simpa [Expr.argNames] using h⟩

theorem unbrokenNames_noteViolation (message : String) :
    UnbrokenNames (noteViolation message).names := by
  show UnbrokenNames [errorsName, "Add"]
  decide

theorem unbrokenNames_containedIn {set : String} (h : Unbroken set.toList) :
    UnbrokenNames (containedIn set).names := by
  show UnbrokenNames [valueName, set, "Contains", valueName]
  simpa [valueName] using h

/-- The frame adds five lines. -/
theorem fills_frame {stmts : List Stmt} {n : ℕ} (h : Stmt.Fills stmts n) :
    Stmt.Fills (frame stmts) (5 + n) := by
  have hfront : Stmt.Fills [.declare errorsName (.create "List<string>"),
      .declare validName (.literal (.bool true)), .blank] 3 := ⟨by decide, rfl⟩
  have hback : Stmt.Fills [.blank, .ret (.var validName)] 2 := ⟨by decide, rfl⟩
  have hframe := (hfront.append h).append hback
  rwa [show 3 + n + 2 = 5 + n by omega] at hframe

end Procedure

/-! ### Rules -/

namespace Rule

theorem unbrokenNames_columnAt (primary : TableId) (c : Cell) :
    UnbrokenNames (columnAt primary c).names := by
  rw [columnAt]
  split
  · show UnbrokenNames [rowName, "GetValue"]
    decide
  · exact unbrokenNames_cellValue c

theorem unbrokenNames_conditionTest (primary : TableId) (c : Condition) :
    UnbrokenNames (conditionTest primary c).names := by
  obtain ⟨cell, op, operand, connective⟩ := c
  have hleft := unbrokenNames_columnAt primary cell
  have hop := unbroken_infixOf op
  cases operand with
  | literal value => simpa [conditionTest, Expr.names] using ⟨hleft, hop⟩
  | cell right =>
    simpa [conditionTest, Expr.names] using ⟨hleft, hop, unbrokenNames_columnAt primary right⟩

theorem unbrokenNames_joined (primary : TableId) (conditions : List Condition) {test : Expr}
    (h : UnbrokenNames test.names) : UnbrokenNames (joined primary test conditions).names := by
  induction conditions generalizing test with
  | nil => exact h
  | cons c conditions ih =>
    have hjoin : Unbroken (joinOf c.connective).symbol.toList := by
      cases c.connective <;> decide
    refine ih ?_
    simpa [Expr.names] using ⟨h, hjoin, unbrokenNames_conditionTest primary c⟩

theorem unbrokenNames_rowTest (primary : TableId) (conditions : List Condition) :
    UnbrokenNames (rowTest primary conditions).names := by
  cases conditions with
  | nil => exact unbrokenNames_nil
  | cons first rest =>
    exact unbrokenNames_joined primary rest (unbrokenNames_conditionTest primary first)

/-- The rows of a branch are selected on one line. -/
theorem fills_selection (name : String) (hname : Unbroken name.toList) (primary : TableId)
    {test : Expr} (htest : UnbrokenNames test.names) :
    Stmt.Fills [selection name primary test] 1 := by
  refine ⟨?_, rfl⟩
  simpa [selection, tableRows, text, number, Stmt.blockNames, Stmt.names, Expr.names,
    Expr.argNames, rowName] using ⟨hname, htest⟩

/-- The report on a branch takes five lines, four of them for the conditional. -/
theorem fills_report {valid : String} (hvalid : Unbroken valid.toList) (a : Assignment) :
    Stmt.Fills (report valid a) 5 := by
  refine ⟨?_, rfl⟩
  have hnote := unbrokenNames_noteViolation ("Rule violated: " ++ a.display)
  simpa [report, Stmt.blockNames, Stmt.names, Expr.names, validName, hvalid] using hnote

/-- **The check of a branch** takes as many lines as its outline says. -/
theorem fills_check {branch : String} (hbranch : Unbroken branch.toList) {primary : TableId}
    {a : Assignment} {stmts : List Stmt} (h : check branch primary a = .ok stmts) :
    Stmt.Fills stmts (Outline.branchHeight a.isLiteral) := by
  have hvalid : Unbroken (branch ++ "Valid").toList := by simpa using hbranch
  have hreport := (fills_report hvalid a).names
  obtain ⟨target, value⟩ := a
  cases value with
  | literal value =>
    cases h
    refine ⟨?_, rfl⟩
    have htarget := unbrokenNames_columnAt primary target
    simpa [Stmt.blockNames, Stmt.names, Expr.names, Expr.argNames, rowName, Infix.symbol, hbranch]
      using ⟨htarget, hreport⟩
  | cell source =>
    cases h
    refine ⟨?_, rfl⟩
    have hset : Unbroken (branch ++ "Source").toList := by simpa using hbranch
    have hcontained := unbrokenNames_containedIn hset
    have hsource := unbrokenNames_columnAt primary source
    have htarget := unbrokenNames_columnValues target
    simpa [Stmt.blockNames, Stmt.names, Expr.names, Expr.argNames, rowName, hbranch]
      using ⟨hsource, htarget, hcontained, hreport⟩
  | unresolved text => cases h

/-- **The statements of a rule** take as many lines as its outline says. -/
theorem fills_statements {r : Rule} {stmts : List Stmt} (h : r.statements = .ok stmts) :
    Stmt.Fills stmts r.outline.height := by
  obtain ⟨consequent, hthen, hcases⟩ := statements_eq_ok h
  have htest := unbrokenNames_rowTest r.primary r.conditions
  have hcomment : Stmt.Fills [.comment r.summary] 1 := ⟨unbrokenNames_nil, rfl⟩
  have hfirst := (hcomment.append
    (fills_selection "thenRows" (by decide) r.primary htest)).append (fills_check (by decide) hthen)
  rcases hcases with ⟨hnone, rfl⟩ | ⟨a, alternative, hsome, helse, rfl⟩
  · rw [outline, hnone]
    exact hfirst
  · have hnegated : UnbrokenNames
        (Expr.not (rowTest r.primary r.conditions).asUnit).names := by
      rw [Expr.names, Expr.names_asUnit]
      exact htest
    have hblank : Stmt.Fills [.blank] 1 := ⟨unbrokenNames_nil, rfl⟩
    have hsecond := (hblank.append
      (fills_selection "elseRows" (by decide) r.primary hnegated)).append
      (fills_check (by decide) helse)
    rw [outline, hsome]
    exact hfirst.append hsecond

end Rule

/-! ### Phrases -/

namespace Phrase

theorem unbrokenNames_toExpr {phrase : Phrase} {e : Expr} (h : phrase.toExpr = .ok e) :
    UnbrokenNames e.names := by
  induction phrase generalizing e with
  | cell c =>
    cases h
    exact unbrokenNames_cellValue c
  | literal value =>
    cases h
    exact unbrokenNames_nil
  | binary left op right ihleft ihright =>
    rw [toExpr] at h
    cases hleft : left.toExpr with
    | error e => simp [hleft] at h
    | ok l =>
      cases hright : right.toExpr with
      | error e => simp [hleft, hright] at h
      | ok r =>
        simp only [hleft, hright, Except.ok.injEq] at h
        subst h
        simpa [Expr.names] using ⟨ihleft hleft, unbroken_infixOf op, ihright hright⟩
  | _ => cases h

theorem fills_containment {method : String} (hmethod : Unbroken method.toList)
    (comment message : String) (source target : Cell) :
    Stmt.Fills (containment method comment message source target) 8 := by
  refine ⟨?_, rfl⟩
  have hsource := unbrokenNames_columnValues source
  have htarget := unbrokenNames_columnValues target
  have hcontained : UnbrokenNames (containedIn "targetValues").names :=
    unbrokenNames_containedIn (by decide)
  have hnote := unbrokenNames_noteViolation message
  simpa [containment, Stmt.blockNames, Stmt.names, Expr.names, Expr.argNames, validName]
    using ⟨hsource, htarget, hmethod, hcontained, hnote⟩

theorem fills_summation (source target : Cell) : Stmt.Fills (summation source target) 3 := by
  refine ⟨?_, rfl⟩
  have hsource := unbrokenNames_columnValues source
  have hsum : UnbrokenNames (Expr.var "sum").names := by decide
  have htarget := unbrokenNames_setCell target hsum
  simpa [summation, Stmt.blockNames, Stmt.names, Expr.names, Expr.argNames, valueName]
    using ⟨hsource, htarget⟩

/-- **The statements of an operation** take as many lines as its kind says. -/
theorem fills_operationStatements {kind : TableOperation} {source : Cell} {column : Option UInt32}
    {stmts : List Stmt} (h : operationStatements kind source column = .ok stmts) :
    Stmt.Fills stmts (Outline.operation kind).height := by
  cases column with
  | none => cases h
  | some column =>
    cases kind with
    | containsAll | containsAny =>
      cases h
      exact fills_containment (by decide) _ _ source _
    | sum =>
      cases h
      exact fills_summation source _
    | avg | max | min | count => cases h

/-- **The statements of a phrase** take as many lines as its outline says. -/
theorem fills_statements {phrase : Phrase} {stmts : List Stmt} (h : phrase.statements = .ok stmts) :
    ∃ outline, phrase.outline? = some outline ∧ Stmt.Fills stmts outline.height := by
  cases hrule : Rule.ofPhrase? phrase with
  | some rule =>
    rw [statements_of_ofPhrase? hrule] at h
    exact ⟨_, outline?_of_rule hrule, Rule.fills_statements h⟩
  | none =>
    cases phrase with
    | conditional | conditionalElse => cases hrule
    | assignment target value =>
      cases hvalue : value.toExpr with
      | error e => simp [statements, Rule.ofPhrase?, hvalue] at h
      | ok e =>
        simp only [statements, Rule.ofPhrase?, hvalue, Except.ok.injEq] at h
        subst h
        have hset := unbrokenNames_setCell target (unbrokenNames_toExpr hvalue)
        exact ⟨_, rfl, by simpa [Stmt.blockNames] using hset, rfl⟩
    | binary left op right =>
      cases hexpr : toExpr (.binary left op right) with
      | error e => simp [statements, Rule.ofPhrase?, hexpr] at h
      | ok e =>
        simp only [statements, Rule.ofPhrase?, hexpr, Except.ok.injEq] at h
        subst h
        have hnames := unbrokenNames_toExpr hexpr
        exact ⟨_, rfl, by simpa [Stmt.blockNames, Stmt.names, validName] using hnames, rfl⟩
    | operation kind source column => exact ⟨_, rfl, fills_operationStatements h⟩
    | filteredOperation kind source condition column =>
      exact ⟨_, rfl, fills_operationStatements h⟩
    | literal | cell => cases h

end Phrase

/-! ### Whole procedures -/

/-- A procedure around statements of a known height. -/
theorem Settings.count_render {settings : Settings} (hname : Unbroken settings.procedureName.toList)
    {stmts : List Stmt} {n : ℕ} (h : Stmt.Fills stmts n) :
    (settings.render stmts).toList.count '\n' = 8 + n := by
  have hframe := fills_frame h
  have hnames : UnbrokenNames (Procedure.mk settings.procedureName (frame stmts)).names :=
    unbrokenNames_cons.mpr ⟨hname, hframe.names⟩
  rw [Settings.render, Procedure.count_render hnames, hframe.height_eq]
  omega

theorem Settings.exists_statements {settings : Settings}
    {generated : Except TargetError (List Stmt)} {text : String}
    (h : generated.map settings.render = .ok text) :
    ∃ stmts, generated = .ok stmts ∧ settings.render stmts = text := by
  cases generated with
  | error e => cases h
  | ok stmts => exact ⟨stmts, rfl, Except.ok.inj h⟩

namespace Procedure

/-- **No text of a rule gets out of its line.** If the names of a procedure have no line breaks,
then its text has no carriage returns and ends with a line break; it has three lines for the first
line and the braces, and one line for each statement of its body, except that a conditional takes
three more than its own body; and each line holds what stands there, an empty statement giving an
empty line and everything else being indented by the depth of its block.

So if the name of the procedure has no line breaks, whatever is generated has a number of lines that
only depends on the outline: eight, and the height of the outline of the phrase or the rule. -/
theorem render_keeps_to_lines :
    (∀ (indent : ℕ) (p : Procedure), UnbrokenNames p.names →
      '\r' ∉ (p.render indent).toList ∧
      (p.render indent).toList.getLast? = some '\n' ∧
      (p.render indent).toList.count '\n' = 3 + Stmt.blockHeight p.body ∧
      LaidOut indent p ((p.render indent).toList.splitOn '\n')) ∧
    (∀ (settings : Settings) (phrase : Phrase) (text : String),
      Unbroken settings.procedureName.toList → settings.procedureFor phrase = .ok text →
      ∃ outline, phrase.outline? = some outline ∧
        text.toList.count '\n' = 8 + outline.height) ∧
    ∀ (settings : Settings) (rule : Rule) (text : String),
      Unbroken settings.procedureName.toList → settings.procedureForRule rule = .ok text →
      text.toList.count '\n' = 8 + rule.outline.height := by
  refine ⟨fun indent p h => ?_, fun settings phrase text hname h => ?_,
    fun settings rule text hname h => ?_⟩
  · have hlines := unbroken_lines h indent
    exact ⟨return_not_mem_joinLines hlines, getLast?_joinLines (List.cons_ne_nil _ _),
      count_render h indent, laidOut_render h indent⟩
  · obtain ⟨stmts, hstmts, rfl⟩ := Settings.exists_statements h
    obtain ⟨outline, houtline, hfills⟩ := Phrase.fills_statements hstmts
    exact ⟨outline, houtline, Settings.count_render hname hfills⟩
  · obtain ⟨stmts, hstmts, rfl⟩ := Settings.exists_statements h
    exact Settings.count_render hname (Rule.fills_statements hstmts)

/-- Line breaks in a comment, in literals and in the code of a register stay in their lines. -/
theorem render_keeps_to_lines_brokenTexts :
    let p : Procedure := ⟨"Check", [.comment "a\r\nb",
      .ifThen (.var "x") [.blank, .run (.call "f" [text "c\nd"])]]⟩
    let c : Cell := ⟨"1\n2", 1, 3, "\r"⟩
    let phrase : Phrase := .conditionalElse (.binary (.cell c) .eq (.literal (.text "\n")))
      c (.literal (.text "\r\n")) c (.cell c)
    let rule : Rule := ⟨[], ⟨c, .literal (.text "\n")⟩, none⟩
    (UnbrokenNames p.names ∧ (p.render 2).toList.count '\n' = 9 ∧
      ((p.render 2).toList.splitOn '\n')[2]? = some "  // a  b".toList ∧
      ((p.render 2).toList.splitOn '\n')[6]? = some "    f(\"c\\nd\");".toList) ∧
    (∃ text, ({} : Settings).procedureFor phrase = .ok text ∧ text.toList.count '\n' = 25) ∧
    ∃ text, ({} : Settings).procedureForRule rule = .ok text ∧ text.toList.count '\n' = 16 := by
  intro p c phrase rule
  have hname : Unbroken ({} : Settings).procedureName.toList := by decide
  refine ⟨?_, ?_, ?_⟩
  · have hnames : UnbrokenNames p.names := by
      show UnbrokenNames ["Check", "x", "f"]
      decide
    obtain ⟨-, -, hcount, hlaid⟩ := render_keeps_to_lines.1 2 p hnames
    have hcomment : Stands p.body 0 0 (.statement (.comment "a\r\nb")) := .first _ _
    -- the call stands behind the comment, inside the conditional and behind its empty line
    have hcall : Stands p.body 1 4 (.statement (.run (.call "f" [text "c\nd"]))) :=
      .later _ (.inside _ _ (.later _ (.first _ _)))
    exact ⟨hnames, hcount, hlaid.indented hcomment (by simp), hlaid.indented hcall (by simp)⟩
  · obtain ⟨outline, houtline, hcount⟩ := render_keeps_to_lines.2.1 {} phrase _ hname rfl
    cases houtline
    exact ⟨_, rfl, hcount⟩
  · exact ⟨_, rfl, render_keeps_to_lines.2.2 {} rule _ hname rfl⟩

end Procedure

end RegisterRules
