import RegisterRules.Proofs.Outcome

/-!
# Which phrases have no procedure

Any phrase may be asked for its procedure, also one that no source spells: an assignment inside an
expression, a conditional as the value of another, an operation on a register without a column. The
answer is a procedure or one cause, and which of several causes it is follows from the order in
which the parts are looked at. In an expression that is the order of the text. Of a conditional only
the values of its branches matter, the first branch first; what stands in its condition never keeps
a procedure from being made, since conditions are flattened and whatever is no comparison is left
out.

`Phrase.Refused` says this without the generator. The two agree on every phrase.

## Main definitions

* `Phrase.leaves`: what stands below the binary operators of a phrase.
* `Phrase.stranger?`: the first of them that is neither a column nor a literal.
* `Phrase.Refused`: the phrases without a procedure, each with its cause.

## Main results

* `Phrase.toExpr_eq_error_iff`: the first stranger is the cause in an expression.
* `Phrase.exists_statements_or_refused`: there are statements or a cause.
* `Settings.procedureFor_eq_error_iff`: the exact cause of every failure.
-/

namespace RegisterRules

namespace Phrase

/-! ### Expressions -/

/-- Whether a phrase is a column or a literal. -/
def isOperand : Phrase → Bool
  | .cell _ | .literal _ => true
  | _ => false

/-- What stands below the binary operators of a phrase, from left to right. -/
def leaves : Phrase → List Phrase
  | .binary left _ right => left.leaves ++ right.leaves
  | other => [other]

/-- The first phrase below the binary operators that is neither a column nor a literal. -/
def stranger? (phrase : Phrase) : Option Phrase := phrase.leaves.find? fun p => !p.isOperand

theorem stranger?_binary (left : Phrase) (op : Operator) (right : Phrase) :
    (binary left op right).stranger? = left.stranger?.or right.stranger? :=
  List.find?_append

/-- A phrase without strangers is an expression of generated code. -/
theorem exists_toExpr {phrase : Phrase} (h : phrase.stranger? = none) :
    ∃ expr, phrase.toExpr = .ok expr := by
  induction phrase with
  | cell | literal => exact ⟨_, rfl⟩
  | binary left op right ihleft ihright =>
    rw [stranger?_binary, Option.or_eq_none_iff] at h
    obtain ⟨l, hl⟩ := ihleft h.1
    obtain ⟨r, hr⟩ := ihright h.2
    exact ⟨.group (.binary l (Procedure.infixOf op) r), by simp only [toExpr, hl, hr]⟩
  | conditional | conditionalElse | assignment | operation | filteredOperation => cases h

/-- The first stranger is the cause of the failure. -/
theorem toExpr_of_stranger? {phrase p : Phrase} (h : phrase.stranger? = some p) :
    phrase.toExpr = .error (.unexpectedPhrase p.label) := by
  induction phrase with
  | cell | literal => cases h
  | binary left op right ihleft ihright =>
    rw [stranger?_binary, Option.or_eq_some_iff] at h
    obtain hleft | ⟨hnone, hright⟩ := h
    · simp only [toExpr, ihleft hleft]
    · obtain ⟨l, hl⟩ := exists_toExpr hnone
      simp only [toExpr, hl, ihright hright]
  | conditional | conditionalElse | assignment | operation | filteredOperation =>
    obtain rfl := Option.some.inj h
    rfl

/-- **An expression fails with its first stranger**, and with nothing else. -/
theorem toExpr_eq_error_iff {phrase : Phrase} {e : TargetError} :
    phrase.toExpr = .error e ↔
      ∃ p, phrase.stranger? = some p ∧ e = .unexpectedPhrase p.label := by
  constructor
  · intro h
    rcases hstranger : phrase.stranger? with - | p
    · obtain ⟨expr, hexpr⟩ := exists_toExpr hstranger
      rw [hexpr] at h
      cases h
    · rw [toExpr_of_stranger? hstranger] at h
      exact ⟨p, rfl, (Except.error.inj h).symm⟩
  · rintro ⟨p, hstranger, rfl⟩
    exact toExpr_of_stranger? hstranger

/-- Of two strangers the one further left is named, also if it stands deeper. -/
example (c : Cell) (condition : Phrase) :
    (binary (.binary (.cell c) .add (.assignment c (.cell c))) .mul
      (.conditional condition c (.cell c))).toExpr = .error (.unexpectedPhrase "assignment") :=
  rfl

/-! ### Branches -/

/-- What a branch assigns is kept as text if it is neither a column nor a literal. -/
theorem assignedValue_of_not_isOperand {value : Phrase} (h : value.isOperand = false) :
    Rule.assignedValue value = .unresolved value.source := by
  cases value with
  | cell | literal => cases h
  | _ => rfl

theorem assignedValue_of_isOperand {value : Phrase} (h : value.isOperand = true) (text : String) :
    Rule.assignedValue value ≠ .unresolved text := by
  cases value with
  | cell | literal => simp [Rule.assignedValue]
  | _ => cases h

/-! ### Statements -/

/-- The operations on a register for which there is a procedure. -/
def supported : List TableOperation := [.containsAll, .containsAny, .sum]

/-- What an operation on a register does and the column that it compares with or writes to, whether
its rows are filtered or not. -/
def operation? : Phrase → Option (TableOperation × Option UInt32)
  | .operation kind _ column | .filteredOperation kind _ _ column => some (kind, column)
  | _ => none

/-- The phrases without a procedure, each with its cause. -/
inductive Refused : Phrase → TargetError → Prop
  /-- The first branch assigns neither a column nor a literal. -/
  | consequent {phrase value : Phrase} {target : Cell} {more : List (Cell × Phrase)}
      (branches : phrase.assigned = (target, value) :: more) (stranger : value.isOperand = false) :
      Refused phrase (.unsupportedAssignment target.display value.source)
  /-- The first branch does, and the second does not. -/
  | alternative {phrase value otherValue : Phrase} {target otherTarget : Cell}
      (branches : phrase.assigned = [(target, value), (otherTarget, otherValue)])
      (operand : value.isOperand = true) (stranger : otherValue.isOperand = false) :
      Refused phrase (.unsupportedAssignment otherTarget.display otherValue.source)
  /-- In the assigned value stands what is no part of an expression. -/
  | assignment {target : Cell} {value p : Phrase} (first : value.stranger? = some p) :
      Refused (.assignment target value) (.unexpectedPhrase p.label)
  /-- In a comparison, or any other expression with an operator, stands what is no part of one. -/
  | binary {left right p : Phrase} {op : Operator}
      (first : (Phrase.binary left op right).stranger? = some p) :
      Refused (.binary left op right) (.unexpectedPhrase p.label)
  /-- An operation on a register names no column, whatever it does. -/
  | missingColumn {phrase : Phrase} {kind : TableOperation}
      (operates : phrase.operation? = some (kind, none)) :
      Refused phrase (.missingColumn kind.name)
  /-- It names one, but there is no procedure for it. -/
  | unsupportedOperation {phrase : Phrase} {kind : TableOperation} {column : UInt32}
      (operates : phrase.operation? = some (kind, some column)) (unsupported : kind ∉ supported) :
      Refused phrase (.unsupportedOperation kind.name)
  /-- A lone literal is no statement. -/
  | literal (value : Value) : Refused (.literal value) (.unexpectedPhrase "literal")
  /-- A lone column is no statement. -/
  | cell (c : Cell) : Refused (.cell c) (.unexpectedPhrase "column reference")

/-- An operation on a register has the statements of its kind and column. -/
theorem statements_of_operation? {phrase : Phrase} {kind : TableOperation}
    {column : Option UInt32} (h : phrase.operation? = some (kind, column)) :
    ∃ source, phrase.statements = operationStatements kind source column := by
  cases phrase with
  | operation kind' source column' =>
    cases h
    exact ⟨source, rfl⟩
  | filteredOperation kind' source condition column' =>
    cases h
    exact ⟨source, rfl⟩
  | conditional | conditionalElse | binary | assignment | literal | cell => cases h

/-- With a column there are statements for the supported operations. -/
theorem exists_operationStatements {kind : TableOperation} (h : kind ∈ supported) (source : Cell)
    (column : UInt32) : ∃ stmts, operationStatements kind source (some column) = .ok stmts := by
  cases kind with
  | containsAll | containsAny | sum => exact ⟨_, rfl⟩
  | avg | max | min | count => exact absurd h (by decide)

/-- For all other operations there are none. -/
theorem operationStatements_eq_error {kind : TableOperation} (h : kind ∉ supported) (source : Cell)
    (column : UInt32) :
    operationStatements kind source (some column) = .error (.unsupportedOperation kind.name) := by
  cases kind with
  | containsAll | containsAny | sum => exact absurd (by decide) h
  | avg | max | min | count => rfl

/-- **A refused phrase has no statements**, for the cause that refuses it. -/
theorem Refused.statements_eq_error {phrase : Phrase} {e : TargetError} (h : Refused phrase e) :
    phrase.statements = .error e := by
  cases h with
  | @consequent _ value target more hbranches hstranger =>
    have hvalue := assignedValue_of_not_isOperand hstranger
    cases phrase with
    | conditional | conditionalElse =>
      cases hbranches
      rw [statements_of_ofPhrase? rfl]
      exact Rule.statements_of_consequent hvalue
    | binary | assignment | literal | cell | operation | filteredOperation => cases hbranches
  | @alternative _ value otherValue target otherTarget hbranches hoperand hstranger =>
    have hotherValue := assignedValue_of_not_isOperand hstranger
    cases phrase with
    | conditionalElse =>
      cases hbranches
      rw [statements_of_ofPhrase? rfl]
      exact Rule.statements_of_alternative (a := ⟨otherTarget, _⟩)
        (assignedValue_of_isOperand hoperand) rfl hotherValue
    | conditional | binary | assignment | literal | cell | operation | filteredOperation =>
      cases hbranches
  | assignment hfirst => simp only [statements, Rule.ofPhrase?, toExpr_of_stranger? hfirst]
  | binary hfirst => simp only [statements, Rule.ofPhrase?, toExpr_of_stranger? hfirst]
  | missingColumn hoperates =>
    obtain ⟨source, hstatements⟩ := statements_of_operation? hoperates
    exact hstatements
  | unsupportedOperation hoperates hunsupported =>
    obtain ⟨source, hstatements⟩ := statements_of_operation? hoperates
    rw [hstatements, operationStatements_eq_error hunsupported]
  | literal | cell => rfl

/-- An operation on a register has statements or a cause that refuses it. -/
theorem exists_statements_or_refused_of_operation? {phrase : Phrase} {kind : TableOperation}
    {column : Option UInt32} (h : phrase.operation? = some (kind, column)) :
    (∃ stmts, phrase.statements = .ok stmts) ∨ ∃ e, Refused phrase e := by
  rcases column with - | column
  · exact .inr ⟨_, .missingColumn h⟩
  by_cases hkind : kind ∈ supported
  · obtain ⟨source, hstatements⟩ := statements_of_operation? h
    rw [hstatements]
    exact .inl (exists_operationStatements hkind source column)
  · exact .inr ⟨_, .unsupportedOperation h hkind⟩

/-- **A phrase has statements or a cause that refuses it.** -/
theorem exists_statements_or_refused (phrase : Phrase) :
    (∃ stmts, phrase.statements = .ok stmts) ∨ ∃ e, Refused phrase e := by
  cases phrase with
  | conditional condition target value =>
    cases hvalue : value.isOperand with
    | false => exact .inr ⟨_, .consequent rfl hvalue⟩
    | true =>
      rw [statements_of_ofPhrase? rfl]
      refine .inl (Rule.exists_statements ?_)
      simpa [Rule.assignments] using assignedValue_of_isOperand hvalue
  | conditionalElse condition target value otherTarget otherValue =>
    cases hvalue : value.isOperand with
    | false => exact .inr ⟨_, .consequent rfl hvalue⟩
    | true =>
      cases hother : otherValue.isOperand with
      | false => exact .inr ⟨_, .alternative rfl hvalue hother⟩
      | true =>
        rw [statements_of_ofPhrase? rfl]
        refine .inl (Rule.exists_statements ?_)
        simpa [Rule.assignments] using
          And.intro (assignedValue_of_isOperand hvalue) (assignedValue_of_isOperand hother)
  | assignment target value =>
    rcases hfirst : value.stranger? with - | p
    · obtain ⟨expr, hexpr⟩ := exists_toExpr hfirst
      simp only [statements, Rule.ofPhrase?, hexpr]
      exact .inl ⟨_, rfl⟩
    · exact .inr ⟨_, .assignment hfirst⟩
  | binary left op right =>
    rcases hfirst : (binary left op right).stranger? with - | p
    · obtain ⟨expr, hexpr⟩ := exists_toExpr hfirst
      simp only [statements, Rule.ofPhrase?, hexpr]
      exact .inl ⟨_, rfl⟩
    · exact .inr ⟨_, .binary hfirst⟩
  | operation | filteredOperation => exact exists_statements_or_refused_of_operation? rfl
  | literal value => exact .inr ⟨_, .literal value⟩
  | cell c => exact .inr ⟨_, .cell c⟩

/-- The causes that refuse a phrase are those that keep its statements from being made. -/
theorem statements_eq_error_iff {phrase : Phrase} {e : TargetError} :
    phrase.statements = .error e ↔ Refused phrase e := by
  constructor
  · intro h
    obtain ⟨stmts, hstmts⟩ | ⟨e', hrefused⟩ := phrase.exists_statements_or_refused
    · rw [h] at hstmts
      cases hstmts
    · obtain rfl : e = e' := Except.error.inj (h.symm.trans hrefused.statements_eq_error)
      exact hrefused
  · exact Refused.statements_eq_error

end Phrase

namespace Settings

/-- **When there is no procedure for a phrase, and why.** Under all settings the cause of a failure
is the one that refuses the phrase, and a phrase that none refuses has a procedure. -/
theorem procedureFor_eq_error_iff (settings : Settings) (phrase : Phrase) :
    (∀ e, settings.procedureFor phrase = .error e ↔ Phrase.Refused phrase e) ∧
      ((∃ text, settings.procedureFor phrase = .ok text) ↔ ∀ e, ¬ Phrase.Refused phrase e) := by
  simp only [← Phrase.statements_eq_error_iff]
  rcases hstatements : phrase.statements with cause | stmts
  · have hfailed : settings.procedureFor phrase = .error cause := by
      rw [procedureFor, hstatements]
      rfl
    rw [hfailed]
    constructor
    · intro e
      rw [Except.error.injEq, Except.error.injEq]
    · constructor
      · rintro ⟨text, ⟨⟩⟩
      · intro hnone
        exact absurd rfl (hnone cause)
  · have hmade : settings.procedureFor phrase = .ok (settings.render stmts) := by
      rw [procedureFor, hstatements]
      rfl
    rw [hmade]
    constructor
    · intro e
      exact ⟨nofun, nofun⟩
    · exact ⟨fun _ e => nofun, fun _ => ⟨_, rfl⟩⟩

end Settings

end RegisterRules
