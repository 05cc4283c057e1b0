import RegisterRules.Proofs.Misfit
import RegisterRules.Proofs.Provenance

/-!
# A rule as text is a rule

The summary of a rule is a source text. Scanned and parsed again it is a conditional with the same
rule, so it compiles to the same procedure, although the brackets of the source are gone: the list
of conditions has none, and a condition without brackets flattens to what was written.

## The way around

Behind its first word the summary is a row of lexemes with a blank in front of each, and every one
of them is stable. So the tokens of the summary are known up to their places, and they spell a
condition without brackets and the assignments.

## Main definitions

* `Rule.pieces`: the lexemes of a summary behind the first one.
* `Rule.texts`: the text literals of a rule.

## Main results

* `Rule.toList_summary`: the text of a summary.
* `Rule.exists_parse_summary`: the summary parses to a conditional with the same rule.
* `Rule.summary_compiles_alike`: a source and its summary.
-/

namespace RegisterRules

open Token

/-! ### Lexemes of columns, literals and operators -/

theorem Cell.toList_display (c : Cell) : c.display.toList = 'г' :: 'р' :: c.digits.toList := by
  rw [Cell.display, String.toList_append]
  rfl

/-- The lexeme of a column. -/
def Cell.piece (c : Cell) : Piece := .plain .identifier c.display.toList

@[simp] theorem Cell.spelling_piece (c : Cell) : c.piece.spelling = c.display.toList := rfl

theorem Cell.Written.stable_piece {c : Cell} (h : c.Written) : c.piece.Stable := by
  rw [Cell.piece, c.toList_display]
  exact Piece.stable_cell (by decide) (by decide) h.isDigit

/-- A token with the text of a column spells it. -/
theorem Cell.Written.isColumn {c : Cell} (h : c.Written) {t : Token}
    (ht : c.piece.mark? = some t.mark) : Phrase.Grammar.IsColumn t c := by
  obtain ⟨hkind, htext⟩ : Kind.identifier = t.kind ∧ c.display = t.text := by
    simpa [Cell.piece, Piece.plain, Piece.mark?, mark] using ht
  constructor
  · rw [isCell, ← hkind, ← htext, c.toList_display]
    rfl
  · rw [← htext, Cell.decode?, c.toList_display, if_pos (by rfl)]
    exact h

/-- The lexeme of a literal. -/
def Value.piece : Value → Piece
  | .text s => .lexeme .string s.toList ('"' :: (s.toList ++ ['"']))
  | .null => .plain .emptyWord "пусто".toList
  | value => .plain .number value.display.toList

@[simp] theorem Value.spelling_piece (value : Value) :
    value.piece.spelling = value.source.toList := by
  cases value with
  | text s => simp [Value.piece, Piece.spelling, Value.source]
  | null => rfl
  | number x => rfl
  | bool b => rfl

theorem Value.Written.stable_piece {value : Value} (h : value.Written)
    (hquote : ∀ s, value = .text s → '"' ∉ s.toList) : value.piece.Stable := by
  cases value with
  | text s => exact Piece.stable_string (.inl rfl) (hquote s rfl)
  | null => exact Piece.stable_keyword (by decide)
  | number x =>
    obtain ⟨whole, fraction, htext, hne, hwhole, hfraction, -⟩ := x.exists_digits
    have hpositive : x.negative = false := h
    rw [hpositive] at htext
    change Piece.Stable (.plain .number (x.text .positional).toList)
    rw [htext]
    exact Piece.stable_number hne hwhole hfraction
  | bool b => cases h

/-- The lexeme of an operand. -/
def Operand.piece : Operand → Piece
  | .cell c => c.piece
  | .literal value => value.piece

@[simp] theorem Operand.spelling_piece (operand : Operand) :
    operand.piece.spelling = operand.display.toList := by
  cases operand with
  | cell c => rfl
  | literal value => exact value.spelling_piece

theorem Operand.isSome_mark?_piece (operand : Operand) : operand.piece.mark?.isSome = true := by
  cases operand with
  | cell c => rfl
  | literal value => cases value <;> rfl

/-- The literal that an operand is. -/
def Operand.literal? : Operand → Option Value
  | .cell _ => none
  | .literal value => some value

theorem Operand.Written.stable_piece {operand : Operand} (h : operand.Written)
    (hquote : ∀ s, operand.literal? = some (.text s) → '"' ∉ s.toList) : operand.piece.Stable := by
  cases operand with
  | cell c => exact Cell.Written.stable_piece h
  | literal value =>
    exact Value.Written.stable_piece h fun s hs => hquote s (by rw [Operand.literal?, hs])

/-- A token with the text of an operand spells it. -/
theorem Operand.Written.spells {operand : Operand} (h : operand.Written) {t : Token}
    (ht : operand.piece.mark? = some t.mark) : Rule.SpellsOperand t operand := by
  cases operand with
  | cell c => exact .column (Cell.Written.isColumn h ht)
  | literal value =>
    cases value with
    | number x =>
      obtain ⟨hkind, htext⟩ : Kind.number = t.kind ∧ x.text .positional = t.text := by
        simpa [Operand.piece, Value.piece, Piece.plain, Piece.mark?, mark, Value.display] using ht
      exact .number hkind.symm (by rw [← htext, x.read?_text])
    | text s =>
      obtain ⟨hkind, rfl⟩ : Kind.string = t.kind ∧ s = t.text := by
        simpa [Operand.piece, Value.piece, Piece.mark?, mark] using ht
      exact .string hkind.symm
    | null =>
      obtain ⟨hkind, -⟩ : Kind.emptyWord = t.kind ∧ "пусто" = t.text := by
        simpa [Operand.piece, Value.piece, Piece.plain, Piece.mark?, mark] using ht
      exact .nothing hkind.symm
    | bool b => cases h

/-- The literal that a branch assigns. -/
def AssignedValue.literal? : AssignedValue → Option Value
  | .literal value => some value
  | .cell _ | .unresolved _ => none

/-- The kind of the token of an operator. -/
def Operator.kind : Operator → Token.Kind
  | .or => .orWord
  | .and => .andWord
  | .eq => .equals
  | .ne => .notEquals
  | .gt => .greater
  | .ge => .greaterOrEqual
  | .lt => .less
  | .le => .lessOrEqual
  | .add => .plus
  | .sub => .minus
  | .mul => .multiply
  | .div => .divide

/-- The lexeme of an operator. -/
def Operator.piece (op : Operator) : Piece := .plain op.kind op.symbol.toList

@[simp] theorem Operator.spelling_piece (op : Operator) :
    op.piece.spelling = op.symbol.toList := rfl

theorem Operator.stable_piece (op : Operator) : op.piece.Stable := by
  cases op with
  | or | and => exact Piece.stable_keyword (by decide)
  | eq | ne | ge | le =>
    exact Piece.stable_pair (by decide) (by decide) (by decide) (by decide) (by decide)
  | gt | lt | add | sub | mul | div =>
    exact Piece.stable_sign (by decide) (by decide) (by decide) (by decide)

theorem Operator.joins_of_isComparison {op : Operator} (h : op.isComparison = true) :
    Phrase.Grammar.Level.Joins .comparisons op.kind op := by
  cases op <;> first | constructor | cases h

/-! ### The lexemes of a summary -/

/-- The lexeme of the word in front of a condition, if it has one. -/
def Connective.pieces : Connective → List Piece
  | .first => []
  | .and => [Operator.and.piece]
  | .or => [Operator.or.piece]

/-- The lexemes of a condition. -/
def Condition.pieces (c : Condition) : List Piece :=
  c.connective.pieces ++ [c.cell.piece, c.operator.piece, c.operand.piece]

/-- The lexemes of an assignment; there are none of an expression. -/
def Assignment.pieces (a : Assignment) : List Piece :=
  match a.value with
  | .cell c => [a.target.piece, .plain .assign ['='], c.piece]
  | .literal value => [a.target.piece, .plain .assign ['='], value.piece]
  | .unresolved _ => []

theorem Assignment.pieces_of_value {a : Assignment} {operand : Operand}
    (h : a.value = operand.assigned) :
    a.pieces = [a.target.piece, .plain .assign ['='], operand.piece] := by
  rw [Assignment.pieces, h]
  cases operand <;> rfl

theorem Condition.spaced_pieces (c : Condition) : spaced c.pieces = ' ' :: c.display.toList := by
  obtain ⟨cell, op, operand, k⟩ := c
  cases k <;>
    simp [Condition.pieces, Condition.display, Connective.pieces, Connective.keyword,
      Operator.symbol]

theorem Assignment.spaced_pieces {a : Assignment} {operand : Operand}
    (h : a.value = operand.assigned) : spaced a.pieces = ' ' :: a.display.toList := by
  rw [Assignment.pieces_of_value h, Assignment.display, h]
  cases operand <;> simp [Operand.assigned, Operand.display]

namespace Rule

open Phrase Phrase.Grammar

/-- The lexemes of the alternative of a rule. -/
def alternativePieces (r : Rule) : List Piece :=
  match r.alternative with
  | some a => .plain .elseWord "иначе".toList :: a.pieces
  | none => []

/-- The lexemes of a summary behind the first one. -/
def pieces (r : Rule) : List Piece :=
  r.conditions.flatMap Condition.pieces ++
    .plain .thenWord "то".toList :: (r.consequent.pieces ++ r.alternativePieces)

theorem spaced_conditions {conditions : List Condition} (h : conditions ≠ []) :
    spaced (conditions.flatMap Condition.pieces) =
      ' ' :: (" ".intercalate (conditions.map Condition.display)).toList := by
  rw [String.toList_intercalate, List.map_map]
  induction conditions with
  | nil => exact absurd rfl h
  | cons c conditions ih =>
    cases conditions with
    | nil => simp [Condition.spaced_pieces]
    | cons c' conditions =>
      rw [List.flatMap_cons, spaced_append, Condition.spaced_pieces, ih (by simp)]
      simp [List.intercalate_cons_cons]

/-- **The text of a summary.** -/
theorem toList_summary {r : Rule} (h : r.Written) :
    r.summary.toList = "если".toList ++ spaced r.pieces := by
  obtain ⟨head, tail, hconditions, -, -⟩ := h.joined
  have hne : r.conditions ≠ [] := by simp [hconditions]
  obtain ⟨-, operand, -, hvalue⟩ := h.assignments r.consequent List.mem_cons_self
  rw [summary, pieces, spaced_append, spaced_conditions hne, spaced_cons, spaced_append,
    Assignment.spaced_pieces hvalue, alternativePieces]
  rcases hother : r.alternative with - | a
  · simp
  · obtain ⟨-, operand', -, hvalue'⟩ := h.assignments a (by simp [assignments, hother])
    simp [Assignment.spaced_pieces hvalue']

/-! ### The tokens of a summary -/

/-- The text literals of a rule. -/
def texts (r : Rule) : List String :=
  (r.conditions.filterMap (·.operand.literal?) ++
    r.assignments.filterMap (·.value.literal?)).filterMap Value.text?

theorem stable_pieces {r : Rule} (h : r.Written)
    (hquotes : ∀ s ∈ r.texts, '"' ∉ s.toList) : ∀ piece ∈ r.pieces, piece.Stable := by
  have hassignment : ∀ a ∈ r.assignments, ∀ piece ∈ a.pieces, piece.Stable := by
    intro a ha
    obtain ⟨htarget, operand, hoperand, hvalue⟩ := h.assignments a ha
    have hliteral : ∀ s, operand.literal? = some (.text s) → '"' ∉ s.toList := by
      intro s hs
      have hmem : Value.text s ∈ r.assignments.filterMap (·.value.literal?) := by
        refine List.mem_filterMap.mpr ⟨a, ha, ?_⟩
        rw [hvalue, ← hs]
        cases operand <;> rfl
      exact hquotes s (List.mem_filterMap.mpr ⟨.text s, List.mem_append_right _ hmem, rfl⟩)
    have hassign : Piece.Stable (.plain .assign ['=']) :=
      Piece.stable_sign (by decide) (by decide) (by decide) (by decide)
    rw [Assignment.pieces_of_value hvalue]
    simpa using ⟨htarget.stable_piece, hassign, hoperand.stable_piece hliteral⟩
  have hcondition : ∀ c ∈ r.conditions, ∀ piece ∈ c.pieces, piece.Stable := by
    intro c hc
    obtain ⟨hcell, -, hoperand⟩ := h.conditions c hc
    have hliteral : ∀ s, c.operand.literal? = some (.text s) → '"' ∉ s.toList := by
      intro s hs
      have hmem : Value.text s ∈ r.conditions.filterMap (·.operand.literal?) :=
        List.mem_filterMap.mpr ⟨c, hc, hs⟩
      exact hquotes s (List.mem_filterMap.mpr ⟨.text s, List.mem_append_left _ hmem, rfl⟩)
    have hword : ∀ piece ∈ c.connective.pieces, piece.Stable := by
      cases c.connective <;> simp [Connective.pieces, Operator.stable_piece]
    refine List.forall_mem_append.mpr ⟨hword, ?_⟩
    simpa using ⟨hcell.stable_piece, c.operator.stable_piece, hoperand.stable_piece hliteral⟩
  have hthen : Piece.Stable (.plain .thenWord "то".toList) := Piece.stable_keyword (by decide)
  have halternative : ∀ piece ∈ r.alternativePieces, piece.Stable := by
    have helse : Piece.Stable (.plain .elseWord "иначе".toList) := Piece.stable_keyword (by decide)
    rw [alternativePieces]
    rcases hother : r.alternative with - | a
    · simp
    · exact List.forall_mem_cons.mpr ⟨helse, hassignment a (by simp [assignments, hother])⟩
  rw [pieces]
  refine List.forall_mem_append.mpr ⟨?_, List.forall_mem_cons.mpr ⟨hthen,
    List.forall_mem_append.mpr ⟨hassignment _ List.mem_cons_self, halternative⟩⟩⟩
  intro piece hpiece
  obtain ⟨c, hc, hpiece⟩ := List.mem_flatMap.mp hpiece
  exact hcondition c hc piece hpiece

/-! ### From the tokens back to the rule -/

/-- The tokens of a comparison spell it. -/
theorem spellsComparison_of_carries {c : Condition}
    (h : c.cell.Written ∧ c.operator.isComparison = true ∧ c.operand.Written) {tokens : List Token}
    (htokens : Carries tokens [c.cell.piece, c.operator.piece, c.operand.piece]) :
    SpellsComparison tokens c := by
  obtain ⟨hcell, hcompares, hoperand⟩ := h
  obtain ⟨t, rest, rfl, ht, hrest⟩ := htokens.exists_cons rfl
  obtain ⟨o, rest, rfl, ho, hrest⟩ := hrest.exists_cons rfl
  obtain ⟨x, rest, rfl, hx, hrest⟩ := hrest.exists_cons c.operand.isSome_mark?_piece
  obtain rfl := hrest.eq_nil
  refine .intro (hcell.isColumn ht) ?_ (hoperand.spells hx)
  rw [kind_of_mark? ho]
  exact Operator.joins_of_isComparison hcompares

/-- One more condition after the other, each with its word in front. -/
theorem spellsPlain_append {before : List Token} {earlier : List Condition}
    (hbefore : SpellsPlain before earlier) {later : List Condition}
    (hlater : ∀ c ∈ later, c.cell.Written ∧ c.operator.isComparison = true ∧ c.operand.Written)
    (hwords : ∀ c ∈ later, c.connective ≠ .first) {tokens : List Token}
    (htokens : Carries tokens (later.flatMap Condition.pieces)) :
    SpellsPlain (before ++ tokens) (earlier ++ later) := by
  induction later generalizing before earlier tokens with
  | nil =>
    obtain rfl := htokens.eq_nil
    rw [List.append_nil, List.append_nil]
    exact hbefore
  | cons c later ih =>
    obtain ⟨hc, hmore⟩ := List.forall_mem_cons.mp hlater
    obtain ⟨hword, hmoreWords⟩ := List.forall_mem_cons.mp hwords
    obtain ⟨first, last, rfl, hfirst, hlast⟩ := htokens.exists_append
    obtain ⟨joins, comparison, rfl, hjoins, hcomparison⟩ := hfirst.exists_append
    have hspells := spellsComparison_of_carries hc hcomparison
    have hnext : SpellsPlain (before ++ (joins ++ comparison)) (earlier ++ [c]) := by
      rcases hk : c.connective with - | - | -
      · exact absurd hk hword
      · rw [hk] at hjoins
        obtain ⟨t, rest, rfl, ht, hrest⟩ := hjoins.exists_cons rfl
        obtain rfl := hrest.eq_nil
        exact hbefore.and (kind_of_mark? ht) hspells hk
      · rw [hk] at hjoins
        obtain ⟨t, rest, rfl, ht, hrest⟩ := hjoins.exists_cons rfl
        obtain rfl := hrest.eq_nil
        exact hbefore.or (kind_of_mark? ht) hspells hk
    simpa using ih hnext hmore hmoreWords hlast

/-- The tokens of the conditions of a rule spell a condition without brackets. -/
theorem spellsPlain_of_carries {r : Rule} (h : r.Written) {tokens : List Token}
    (htokens : Carries tokens (r.conditions.flatMap Condition.pieces)) :
    SpellsPlain tokens r.conditions := by
  obtain ⟨head, tail, hconditions, hfirst, hwords⟩ := h.joined
  have hwritten := h.conditions
  rw [hconditions] at htokens hwritten ⊢
  obtain ⟨hhead, htail⟩ := List.forall_mem_cons.mp hwritten
  obtain ⟨first, last, rfl, hfirstTokens, hlast⟩ := htokens.exists_append
  rw [Condition.pieces, hfirst] at hfirstTokens
  exact spellsPlain_append (.single (spellsComparison_of_carries hhead hfirstTokens) hfirst)
    htail hwords hlast

/-- The tokens of an assignment spell it. -/
theorem exists_assigns_of_carries {a : Assignment} (htarget : a.target.Written)
    (hvalue : ∃ operand : Operand, operand.Written ∧ a.value = operand.assigned)
    {tokens : List Token} (htokens : Carries tokens a.pieces) :
    ∃ value, Assigns tokens a.target value ∧ assignedValue value = a.value := by
  obtain ⟨operand, hoperand, hvalue⟩ := hvalue
  rw [Assignment.pieces_of_value hvalue] at htokens
  obtain ⟨t, rest, rfl, ht, hrest⟩ := htokens.exists_cons rfl
  obtain ⟨e, rest, rfl, he, hrest⟩ := hrest.exists_cons rfl
  obtain ⟨x, rest, rfl, hx, hrest⟩ := hrest.exists_cons operand.isSome_mark?_piece
  obtain rfl := hrest.eq_nil
  have hintro : ∀ {value : Phrase}, Derives (.operand .amount) 0 [x] value →
      Assigns (t :: e :: [x]) a.target value :=
    fun hamount => .intro (htarget.isColumn ht) (kind_of_mark? he) (.item (.item hamount))
  rw [hvalue]
  cases hoperand.spells hx with
  | column hcolumn => exact ⟨_, hintro (.column hcolumn), rfl⟩
  | number hkind hread => exact ⟨_, hintro (.number hkind hread), rfl⟩
  | string hkind => exact ⟨_, hintro (.string hkind), rfl⟩
  | nothing hkind => exact ⟨_, hintro (.nothing hkind), rfl⟩

/-- The tokens of a summary spell a conditional with the same rule. -/
theorem exists_spells_of_carries {r : Rule} (h : r.Written) {tokens : List Token}
    (htokens : Carries tokens (.plain .ifWord "если".toList :: r.pieces)) :
    ∃ phrase, Spells tokens phrase ∧ ofPhrase? phrase = some r := by
  obtain ⟨first, rest, rfl, hfirst, hrest⟩ := htokens.exists_cons rfl
  obtain ⟨word, rest, rfl, hword, hrest⟩ := hrest.exists_append
  obtain ⟨next, rest, rfl, hnext, hrest⟩ := hrest.exists_cons rfl
  obtain ⟨branch, rest, rfl, hbranch, hrest⟩ := hrest.exists_append
  have hif : first.kind = .ifWord := kind_of_mark? hfirst
  have hthen : next.kind = .thenWord := kind_of_mark? hnext
  obtain ⟨test, htest, hconditions⟩ :=
    exists_derives_of_spellsPlain (spellsPlain_of_carries h hword)
  obtain ⟨htarget, hvalue⟩ := h.assignments r.consequent List.mem_cons_self
  obtain ⟨value, hassigns, hassigned⟩ := exists_assigns_of_carries htarget hvalue hbranch
  rw [alternativePieces] at hrest
  rcases hother : r.alternative with - | a
  · rw [hother] at hrest
    obtain rfl := hrest.eq_nil
    rw [List.append_nil]
    refine ⟨_, .conditional hif htest hthen hassigns, ?_⟩
    rw [ofPhrase?, hconditions, hassigned, ← hother]
  · rw [hother] at hrest
    obtain ⟨last, otherBranch, rfl, hlast, hotherBranch⟩ := hrest.exists_cons rfl
    have helse : last.kind = .elseWord := kind_of_mark? hlast
    obtain ⟨hotherTarget, hotherValue⟩ := h.assignments a (by simp [assignments, hother])
    obtain ⟨otherValue, hotherAssigns, hotherAssigned⟩ :=
      exists_assigns_of_carries hotherTarget hotherValue hotherBranch
    refine ⟨_, .conditionalElse hif htest hthen hassigns helse hotherAssigns, ?_⟩
    rw [ofPhrase?, hconditions, hassigned, hotherAssigned, ← hother]

/-- **The summary of a rule parses to a conditional with the same rule.** -/
theorem exists_parse_summary {r : Rule} (h : r.Written)
    (hquotes : ∀ s ∈ r.texts, '"' ∉ s.toList) :
    ∃ phrase, Phrase.parse (scan r.summary) = .ok phrase ∧ ofPhrase? phrase = some r := by
  have hif : Piece.Stable (.plain .ifWord "если".toList) := Piece.stable_keyword (by decide)
  obtain ⟨tokens, e, hscan, he, htokens⟩ := exists_carries_scan hif (stable_pieces h hquotes)
  rw [Piece.spelling_plain, ← toList_summary h, String.ofList_toList] at hscan
  obtain ⟨phrase, hspells, hrule⟩ := exists_spells_of_carries h htokens
  refine ⟨phrase, ?_, hrule⟩
  rw [hscan, parse_eq_ok_iff, content_append hspells.kind_ne, content_cons_end he, List.append_nil]
  exact hspells

/-! ### Compiling a summary -/

/-- A branch that assigns a column or a literal can be checked. -/
theorem exists_check {a : Assignment} (h : ∀ text, a.value ≠ .unresolved text) (branch : String)
    (table : TableId) : ∃ stmts, check branch table a = .ok stmts := by
  rw [check]
  rcases hvalue : a.value with c | value | text
  · exact ⟨_, rfl⟩
  · exact ⟨_, rfl⟩
  · exact absurd hvalue (h text)

/-- Assignments of columns and literals have statements. -/
theorem exists_statements {r : Rule}
    (h : ∀ a ∈ r.assignments, ∀ text, a.value ≠ .unresolved text) :
    ∃ stmts, r.statements = .ok stmts := by
  obtain ⟨consequent, hconsequent⟩ := exists_check (h _ List.mem_cons_self) "then" r.primary
  rcases hother : r.alternative with - | a
  · simp only [statements, hconsequent, hother]
    exact ⟨_, rfl⟩
  · have ha : a ∈ r.assignments := by simp [assignments, hother]
    obtain ⟨alternative, halternative⟩ := exists_check (h a ha) "else" r.primary
    simp only [statements, hconsequent, hother, halternative]
    exact ⟨_, rfl⟩

/-- A conditional compiles to the procedure of its rule. -/
theorem compile_eq {source : String} {phrase : Phrase} {r : Rule} {stmts : List Procedure.Stmt}
    (hparse : Phrase.parse (scan source) = .ok phrase) (hrule : ofPhrase? phrase = some r)
    (hstatements : r.statements = .ok stmts) (settings : Settings) :
    settings.compile source = .ok (settings.render stmts) := by
  rw [Settings.compile, Settings.compileWith]
  simp only [hparse, hrule, Settings.procedureForRule, hstatements]
  rfl

/-- **A rule as text is the same rule.** Let a source be accepted as a conditional whose rule has
conditions, each with a column on its left, the first without a word in front; let no text literal
hold a double quote and no branch assign an expression. Then the summary of the rule is accepted as
a conditional with the same rule, and it compiles to the same procedure as the source. -/
theorem summary_compiles_alike {source : String} {phrase : Phrase} {r : Rule}
    (hparse : Phrase.parse (scan source) = .ok phrase) (hrule : ofPhrase? phrase = some r)
    (hne : r.conditions ≠ []) (hcells : ∀ c ∈ r.conditions, c.cell ≠ Cell.blank)
    (hfirst : ∀ c ∈ r.conditions.head?, c.connective = .first)
    (hquotes : ∀ s ∈ r.texts, '"' ∉ s.toList)
    (hresolved : ∀ a ∈ r.assignments, ∀ text, a.value ≠ .unresolved text) :
    (∃ phrase', Phrase.parse (scan r.summary) = .ok phrase' ∧ phrase'.isConditional = true ∧
      ofPhrase? phrase' = some r) ∧
    ∀ settings : Settings, ∃ text,
      settings.compile source = .ok text ∧ settings.compile r.summary = .ok text := by
  have hwritten := written_of_parse hparse hrule hne hfirst hcells hresolved
  obtain ⟨phrase', hparse', hrule'⟩ := exists_parse_summary hwritten hquotes
  obtain ⟨stmts, hstatements⟩ := exists_statements hresolved
  constructor
  · refine ⟨phrase', hparse', ?_, hrule'⟩
    cases phrase' with
    | conditional | conditionalElse => rfl
    | _ => cases hrule'
  · intro settings
    exact ⟨_, compile_eq hparse hrule hstatements settings,
      compile_eq hparse' hrule' hstatements settings⟩

/-- A rule with brackets, and with capital letters and other spellings of its literals. -/
def bracketedSource : String :=
  "ЕСЛИ (ГР10102212 == 'да' ИЛИ гр10102213>1.50) И гр10102214 != пусто " ++
    "то гр10103206 = 'нет' иначе гр10103207 = гр10102212"

/-- Its summary has no brackets and the same procedure. -/
theorem summary_compiles_alike_bracketed :
    ∃ phrase r, Phrase.parse (scan bracketedSource) = .ok phrase ∧ ofPhrase? phrase = some r ∧
      r.summary =
        "если гр10102212 == \"да\" или гр10102213 > 1.5 и гр10102214 != пусто " ++
          "то гр10103206 = \"нет\" иначе гр10103207 = гр10102212" ∧
      (∃ phrase', Phrase.parse (scan r.summary) = .ok phrase' ∧ phrase'.isConditional = true ∧
        ofPhrase? phrase' = some r) ∧
      ∀ settings : Settings, ∃ text,
        settings.compile bracketedSource = .ok text ∧ settings.compile r.summary = .ok text := by
  have hparse : Phrase.parse (scan bracketedSource) = .ok (.conditionalElse
      (.binary
        (.binary (.binary (.cell ⟨"10102", 2, 12, "10102212"⟩) .eq (.literal (.text "да"))) .or
          (.binary (.cell ⟨"10102", 2, 13, "10102213"⟩) .gt
            (.literal (.number ⟨false, 4609434218613702656, by decide⟩)))) .and
        (.binary (.cell ⟨"10102", 2, 14, "10102214"⟩) .ne (.literal .null)))
      ⟨"10103", 2, 6, "10103206"⟩ (.literal (.text "нет"))
      ⟨"10103", 2, 7, "10103207"⟩ (.cell ⟨"10102", 2, 12, "10102212"⟩)) := by decide +kernel
  obtain ⟨hsummary, hcompile⟩ := summary_compiles_alike hparse rfl (by decide) (by decide)
    (by decide) (by decide) (by simp [assignments, assignedValue])
  exact ⟨_, _, hparse, rfl, by decide +kernel, hsummary, hcompile⟩

end Rule

end RegisterRules
