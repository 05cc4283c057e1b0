import RegisterRules.Proofs.Summary

/-!
# How a compilation ends

A compilation ends in one of three ways. The source is no rule; or it is a conditional in which a
branch assigns an arithmetic expression; or there is a procedure.

The other causes that keep a procedure from being made stay out of reach of a source text. They are
about phrases that only a document can hold: operations on registers, lone columns and literals as
statements, statements inside expressions. What a source text can spell is said once
(`Phrase.FromSource`), and the three endings are read off it.

## Main definitions

* `Phrase.FromSource`: the phrases that a source text can spell.
* `Phrase.assigned`: what the branches of a conditional assign.
* `Phrase.arithmetic?`: the first branch that assigns an expression.

## Main results

* `Phrase.fromSource_of_parse`: what the parser returns for a source text.
* `Phrase.FromSource.statements_eq_error`, `Phrase.FromSource.exists_statements`: the statements of
  such a phrase.
* `Settings.compile_ends`: the three endings.
-/

namespace RegisterRules

namespace Phrase

open Grammar

/-! ### What a source text can spell -/

/-- The phrases that a source text can spell. -/
inductive FromSource : Phrase → Prop
  | conditional {test value : Phrase} {target : Cell} (condition : BuiltFrom .condition test)
      (column : target.Written) (amount : BuiltFrom .amount value) :
      FromSource (.conditional test target value)
  | conditionalElse {test value otherValue : Phrase} {target otherTarget : Cell}
      (condition : BuiltFrom .condition test) (column : target.Written)
      (amount : BuiltFrom .amount value) (otherColumn : otherTarget.Written)
      (otherAmount : BuiltFrom .amount otherValue) :
      FromSource (.conditionalElse test target value otherTarget otherValue)
  | assignment {target : Cell} {value : Phrase} (column : target.Written)
      (amount : BuiltFrom .amount value) : FromSource (.assignment target value)
  | comparison {c : Cell} {right : Phrase} (column : c.Written)
      (condition : BuiltFrom .condition right) : FromSource (.binary (.cell c) .eq right)

theorem Grammar.Assigns.builtFrom {word : List Token} {target : Cell} {value : Phrase}
    (h : Assigns word target value) (hnumbers : ∀ t ∈ word, t.Unsigned) :
    target.Written ∧ BuiltFrom .amount value := by
  cases h with
  | intro hcolumn _ hamount =>
    refine ⟨Cell.written_of_decode? hcolumn.decoded, hamount.builtFrom fun t ht => ?_⟩
    exact hnumbers t (List.mem_cons_of_mem _ (List.mem_cons_of_mem _ ht))

/-- A rule of the grammar whose numbers start with digits. -/
theorem Grammar.Spells.fromSource {word : List Token} {phrase : Phrase} (h : Spells word phrase)
    (hnumbers : ∀ t ∈ word, t.Unsigned) : FromSource phrase := by
  cases h with
  | conditional _ htest _ hassigns =>
    obtain ⟨htestNumbers, hrest⟩ := List.forall_mem_append.mp (List.forall_mem_cons.mp hnumbers).2
    obtain ⟨hcolumn, hamount⟩ := hassigns.builtFrom (List.forall_mem_cons.mp hrest).2
    exact .conditional (htest.builtFrom htestNumbers) hcolumn hamount
  | conditionalElse _ htest _ hassigns _ hother =>
    obtain ⟨htestNumbers, hrest⟩ := List.forall_mem_append.mp (List.forall_mem_cons.mp hnumbers).2
    obtain ⟨hbranch, hotherBranch⟩ := List.forall_mem_append.mp (List.forall_mem_cons.mp hrest).2
    obtain ⟨hcolumn, hamount⟩ := hassigns.builtFrom hbranch
    obtain ⟨hotherColumn, hotherAmount⟩ := hother.builtFrom (List.forall_mem_cons.mp hotherBranch).2
    exact .conditionalElse (htest.builtFrom htestNumbers) hcolumn hamount hotherColumn hotherAmount
  | assignment hassigns =>
    obtain ⟨hcolumn, hamount⟩ := hassigns.builtFrom hnumbers
    exact .assignment hcolumn hamount
  | comparison hcolumn _ hright =>
    obtain ⟨-, -, hword⟩ :=
      (List.forall_mem_cons.mp hnumbers).imp_right List.forall_mem_cons.mp
    exact .comparison (Cell.written_of_decode? hcolumn.decoded) (hright.builtFrom hword)

/-- **What the parser returns for a source text.** -/
theorem fromSource_of_parse {source : String} {phrase : Phrase}
    (h : parse (Token.scan source) = .ok phrase) : FromSource phrase := by
  refine (parse_eq_ok_iff.mp h).fromSource fun t ht => ?_
  exact Token.unsigned_of_mem_scan ((List.takeWhile_sublist _).subset ht)

/-! ### Expressions -/

/-- Columns, literals and operators between them are expressions of generated code. -/
theorem BuiltFrom.exists_toExpr {ladder : Ladder} {phrase : Phrase} (h : BuiltFrom ladder phrase) :
    ∃ e, phrase.toExpr = .ok e := by
  induction h with
  | cell => exact ⟨_, rfl⟩
  | literal => exact ⟨_, rfl⟩
  | binary _ _ _ _ ihleft ihright =>
    obtain ⟨l, hl⟩ := ihleft
    obtain ⟨r, hr⟩ := ihright
    rw [toExpr, hl, hr]
    exact ⟨_, rfl⟩

/-- An assigned value is a column or a literal, or an expression that is kept as text. -/
theorem BuiltFrom.assignedValue_eq {ladder : Ladder} {value : Phrase} (h : BuiltFrom ladder value) :
    if value.isBinary then Rule.assignedValue value = .unresolved value.source
    else ∀ text, Rule.assignedValue value ≠ .unresolved text := by
  cases h with
  | cell => simp [isBinary, Rule.assignedValue]
  | literal => simp [isBinary, Rule.assignedValue]
  | binary => simp [isBinary, Rule.assignedValue]

/-! ### Branches -/

/-- What the branches of a conditional assign, the first branch first. -/
def assigned : Phrase → List (Cell × Phrase)
  | .conditional _ target value => [(target, value)]
  | .conditionalElse _ target value otherTarget otherValue =>
    [(target, value), (otherTarget, otherValue)]
  | _ => []

/-- The first branch that assigns an arithmetic expression. -/
def arithmetic? (phrase : Phrase) : Option (Cell × Phrase) :=
  phrase.assigned.find? fun branch => branch.2.isBinary

/-- There is one if and only if the phrase is a conditional of which a branch assigns one. -/
theorem exists_arithmetic?_iff (phrase : Phrase) :
    (∃ branch, phrase.arithmetic? = some branch) ↔
      phrase.isConditional = true ∧ ∃ branch ∈ phrase.assigned, branch.2.isBinary = true := by
  rw [← Option.isSome_iff_exists, arithmetic?, List.find?_isSome]
  constructor
  · intro h
    refine ⟨?_, h⟩
    obtain ⟨branch, hbranch, -⟩ := h
    cases phrase with
    | conditional | conditionalElse => rfl
    | _ => cases hbranch
  · exact And.right

end Phrase

namespace Rule

/-- There is no check for a branch that assigns an expression. -/
theorem check_eq_error {a : Assignment} {text : String} (h : a.value = .unresolved text)
    (branch : String) (table : TableId) :
    check branch table a = .error (.unsupportedAssignment a.target.display text) := by
  rw [check, h]

/-- The statements of a rule whose first assignment is an expression. -/
theorem statements_of_consequent {r : Rule} {text : String}
    (h : r.consequent.value = .unresolved text) :
    r.statements = .error (.unsupportedAssignment r.consequent.target.display text) := by
  simp only [statements, check_eq_error h]

/-- The statements of a rule whose second assignment is an expression, but not the first. -/
theorem statements_of_alternative {r : Rule} {a : Assignment} {text : String}
    (hfirst : ∀ text, r.consequent.value ≠ .unresolved text) (ha : r.alternative = some a)
    (h : a.value = .unresolved text) :
    r.statements = .error (.unsupportedAssignment a.target.display text) := by
  obtain ⟨stmts, hstmts⟩ := exists_check hfirst "then" r.primary
  simp only [statements, hstmts, ha, check_eq_error h]

end Rule

namespace Phrase

/-- The statements of a conditional are those of its rule. -/
theorem statements_of_ofPhrase? {phrase : Phrase} {r : Rule} (h : Rule.ofPhrase? phrase = some r) :
    phrase.statements = r.statements := by
  simp only [statements, h]

/-- **A branch that assigns an expression is the cause**, the first one if there are two. -/
theorem FromSource.statements_eq_error {phrase : Phrase} (h : FromSource phrase) {target : Cell}
    {value : Phrase} (hfirst : phrase.arithmetic? = some (target, value)) :
    phrase.statements = .error (.unsupportedAssignment target.display value.source) := by
  cases h with
  | @conditional test value' target' _ _ hamount =>
    have hvalue := hamount.assignedValue_eq
    rw [statements_of_ofPhrase? rfl]
    cases hbinary : value'.isBinary with
    | false => simp [arithmetic?, assigned, hbinary] at hfirst
    | true =>
      obtain ⟨rfl, rfl⟩ : target' = target ∧ value' = value := by
        simpa [arithmetic?, assigned, hbinary] using hfirst
      rw [hbinary, if_pos rfl] at hvalue
      exact Rule.statements_of_consequent hvalue
  | @conditionalElse test value' otherValue target' otherTarget _ _ hamount _ hother =>
    have hvalue := hamount.assignedValue_eq
    have hotherValue := hother.assignedValue_eq
    rw [statements_of_ofPhrase? rfl]
    cases hbinary : value'.isBinary with
    | true =>
      obtain ⟨rfl, rfl⟩ : target' = target ∧ value' = value := by
        simpa [arithmetic?, assigned, hbinary] using hfirst
      rw [hbinary, if_pos rfl] at hvalue
      exact Rule.statements_of_consequent hvalue
    | false =>
      rw [hbinary, if_neg Bool.false_ne_true] at hvalue
      cases hotherBinary : otherValue.isBinary with
      | false => simp [arithmetic?, assigned, hbinary, hotherBinary] at hfirst
      | true =>
        obtain ⟨rfl, rfl⟩ : otherTarget = target ∧ otherValue = value := by
          simpa [arithmetic?, assigned, hbinary, hotherBinary] using hfirst
        rw [hotherBinary, if_pos rfl] at hotherValue
        exact Rule.statements_of_alternative (a := ⟨otherTarget, _⟩) hvalue rfl hotherValue
  | assignment => simp [arithmetic?, assigned] at hfirst
  | comparison => simp [arithmetic?, assigned] at hfirst

/-- **There is no other cause.** -/
theorem FromSource.exists_statements {phrase : Phrase} (h : FromSource phrase)
    (hnone : phrase.arithmetic? = none) : ∃ stmts, phrase.statements = .ok stmts := by
  cases h with
  | @conditional test value target _ _ hamount =>
    have hbinary : value.isBinary = false := by simpa [arithmetic?, assigned] using hnone
    have hvalue := hamount.assignedValue_eq
    rw [hbinary, if_neg Bool.false_ne_true] at hvalue
    rw [statements_of_ofPhrase? rfl]
    exact Rule.exists_statements (by simpa [Rule.assignments] using hvalue)
  | @conditionalElse test value otherValue target otherTarget _ _ hamount _ hother =>
    obtain ⟨hbinary, hotherBinary⟩ : value.isBinary = false ∧ otherValue.isBinary = false := by
      simpa [arithmetic?, assigned] using hnone
    have hvalue := hamount.assignedValue_eq
    have hotherValue := hother.assignedValue_eq
    rw [hbinary, if_neg Bool.false_ne_true] at hvalue
    rw [hotherBinary, if_neg Bool.false_ne_true] at hotherValue
    rw [statements_of_ofPhrase? rfl]
    exact Rule.exists_statements (by simpa [Rule.assignments] using ⟨hvalue, hotherValue⟩)
  | @assignment target value _ hamount =>
    obtain ⟨e, he⟩ := hamount.exists_toExpr
    simp only [statements, Rule.ofPhrase?, he]
    exact ⟨_, rfl⟩
  | @comparison c right _ hright =>
    obtain ⟨e, he⟩ := hright.exists_toExpr
    simp only [statements, Rule.ofPhrase?, toExpr, he]
    exact ⟨_, rfl⟩

end Phrase

/-! ### The whole way -/

namespace Settings

/-- A source that is no rule. -/
theorem compile_of_parse_error (settings : Settings) {source : String} {e : SourceError}
    (h : Phrase.parse (Token.scan source) = .error e) :
    settings.compile source = .error e.diagnostic := by
  rw [compile, compileWith]
  simp only [h]

/-- A source that is a rule: conditionals go by their rule, and it has the same statements. -/
theorem compile_of_parse (settings : Settings) {source : String} {phrase : Phrase}
    (h : Phrase.parse (Token.scan source) = .ok phrase) :
    settings.compile source =
      (phrase.statements.map settings.render).mapError TargetError.diagnostic := by
  rw [compile, compileWith]
  simp only [h]
  cases hrule : Rule.ofPhrase? phrase with
  | none => rfl
  | some r =>
    rw [Phrase.statements_of_ofPhrase? hrule]
    rfl

/-- **How a compilation ends.** It fails with the code of the grammar and a place if and only if the
source does not parse. If it parses, it fails with the code of assignments and without a place if
and only if it is a conditional of which a branch assigns an expression; the message names the
target and the expression of the first such branch. In all other cases there is a procedure. No
source fails with the code of another cause. -/
theorem compile_ends (settings : Settings) (source : String) :
    ((∃ d, settings.compile source = .error d ∧ d.code = "PARSE_ERROR" ∧
        d.location.isSome = true) ↔ ∃ e, Phrase.parse (Token.scan source) = .error e) ∧
    (∀ phrase, Phrase.parse (Token.scan source) = .ok phrase →
      ((∃ d, settings.compile source = .error d ∧ d.code = "UNSUPPORTED_ASSIGNMENT" ∧
          d.location = none) ↔
        phrase.isConditional = true ∧ ∃ branch ∈ phrase.assigned, branch.2.isBinary = true) ∧
      (∀ target value, phrase.arithmetic? = some (target, value) →
        ∃ d, settings.compile source = .error d ∧
          d.message = "Value assigned to " ++ target.display ++ " is an arithmetic expression (" ++
            value.source ++ ")") ∧
      (¬ (phrase.isConditional = true ∧ ∃ branch ∈ phrase.assigned, branch.2.isBinary = true) →
        ∃ text, settings.compile source = .ok text)) ∧
    ∀ d, settings.compile source = .error d →
      d.code ∉ ["MISSING_TARGET_COLUMN", "UNSUPPORTED_OPERATION", "UNEXPECTED_NODE"] := by
  rcases hparse : Phrase.parse (Token.scan source) with e | phrase
  · rw [settings.compile_of_parse_error hparse]
    refine ⟨⟨fun _ => ⟨e, rfl⟩, fun _ => ⟨_, rfl, rfl, rfl⟩⟩, by simp, ?_⟩
    rintro _ ⟨⟩
    simp [SourceError.diagnostic, Diagnostic.parseCode]
  have hsource := Phrase.fromSource_of_parse hparse
  have hcompile := settings.compile_of_parse hparse
  cases hfirst : phrase.arithmetic? with
  | some branch =>
    obtain ⟨target, value⟩ := branch
    rw [hsource.statements_eq_error hfirst] at hcompile
    rw [hcompile]
    have hcause := (Phrase.exists_arithmetic?_iff phrase).mp ⟨_, hfirst⟩
    refine ⟨⟨?_, by simp⟩, ?_, ?_⟩
    · rintro ⟨_, ⟨⟩, hcode, -⟩
      simp [TargetError.diagnostic, TargetError.code] at hcode
    · rintro _ ⟨⟩
      refine ⟨⟨fun _ => hcause, fun _ => ⟨_, rfl, rfl, rfl⟩⟩, ?_, fun hnone => absurd hcause hnone⟩
      intro target' value' hfirst'
      rw [hfirst] at hfirst'
      cases hfirst'
      exact ⟨_, rfl, rfl⟩
    · rintro _ ⟨⟩
      simp [TargetError.diagnostic, TargetError.code]
  | none =>
    obtain ⟨stmts, hstmts⟩ := hsource.exists_statements hfirst
    rw [hstmts] at hcompile
    rw [hcompile]
    have hnone := (Phrase.exists_arithmetic?_iff phrase).not.mp (by simp [hfirst])
    refine ⟨⟨?_, by simp⟩, ?_, ?_⟩
    · rintro ⟨_, ⟨⟩, -⟩
    · rintro _ ⟨⟩
      refine ⟨⟨?_, fun hcause => absurd hcause hnone⟩, ?_, fun _ => ⟨_, rfl⟩⟩
      · rintro ⟨_, ⟨⟩, -⟩
      · simp [hfirst]
    · rintro _ ⟨⟩

/-- A conditional whose second branch assigns a difference. -/
def differenceOtherwise : String :=
  "если гр10102212 == 1 то гр10103206 = 2 иначе гр10103207 = гр10102209 - (1 + 2)"

/-- It parses, and under all settings it fails with that difference in its message. -/
theorem compile_ends_differenceOtherwise :
    ∃ phrase, Phrase.parse (Token.scan differenceOtherwise) = .ok phrase ∧
      ∀ settings : Settings, ∃ d, settings.compile differenceOtherwise = .error d ∧
        d.message =
          "Value assigned to гр10103207 is an arithmetic expression (гр10102209 - (1 + 2))" := by
  have hparse : Phrase.parse (Token.scan differenceOtherwise) = .ok (.conditionalElse
      (.binary (.cell ⟨"10102", 2, 12, "10102212"⟩) .eq
        (.literal (.number ⟨false, 4607182418800017408, by decide⟩)))
      ⟨"10103", 2, 6, "10103206"⟩ (.literal (.number ⟨false, 4611686018427387904, by decide⟩))
      ⟨"10103", 2, 7, "10103207"⟩ (.binary (.cell ⟨"10102", 2, 9, "10102209"⟩) .sub
        (.binary (.literal (.number ⟨false, 4607182418800017408, by decide⟩)) .add
          (.literal (.number ⟨false, 4611686018427387904, by decide⟩))))) := by decide +kernel
  refine ⟨_, hparse, fun settings => ?_⟩
  obtain ⟨d, hd, hmessage⟩ :=
    ((compile_ends settings differenceOtherwise).2.1 _ hparse).2.1 _ _ rfl
  exact ⟨d, hd, hmessage.trans (by decide +kernel)⟩

end Settings

end RegisterRules
