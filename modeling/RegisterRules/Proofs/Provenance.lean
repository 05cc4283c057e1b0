import RegisterRules.Proofs.Precedence
import RegisterRules.Proofs.Relexing

/-!
# What a rule from a source is made of

The columns, numbers and words of a rule that was parsed come from tokens, and that says more about
them than their types do. A column reads back from its digits. A number is not negative, since the
scanner reads a minus as a lexeme of its own. No literal is a truth value. In the list of conditions
the words stand where they stand in a source: in front of every comparison but the first.

## Main definitions

* `Cell.Written`, `Value.Written`, `Operand.Written`: columns and literals that a token can spell.
* `Phrase.BuiltFrom`: expressions over them with the operators of a ladder.
* `Token.Unsigned`: a token that starts with a digit if it is a number.
* `Rule.Written`: the rules that a source can have.

## Main results

* `Token.unsigned_of_mem_scan`: a number starts with a digit.
* `Phrase.Grammar.Derives.builtFrom`: the phrase of a word is built from what its tokens spell.
* `Rule.written_of_parse`: a rule from a source.
-/

namespace RegisterRules

/-! ### Columns and literals -/

/-- A column that its digits spell. -/
def Cell.Written (c : Cell) : Prop := Cell.ofDigits? c.digits.toList = some c

theorem Cell.Written.isDigit {c : Cell} (h : c.Written) :
    ∀ d ∈ c.digits.toList, d.isDigit = true := by
  rw [Cell.Written, Cell.ofDigits?] at h
  split at h
  · next hdigits => exact List.all_eq_true.mp hdigits.2
  · cases h

theorem Cell.digits_of_ofDigits? {digits : List Char} {c : Cell}
    (h : Cell.ofDigits? digits = some c) :
    c.digits = String.ofList digits := by
  rw [Cell.ofDigits?] at h
  split at h
  · dsimp only at h
    split at h
    · cases h
      rfl
    · cases h
  · cases h

/-- A decoded column is spelled by its digits. -/
theorem Cell.written_of_decode? {text : String} {c : Cell} (h : Cell.decode? text = some c) :
    c.Written := by
  rw [Cell.decode?] at h
  split at h
  · rw [Cell.Written, Cell.digits_of_ofDigits? h, String.toList_ofList]
    exact h
  · cases h

/-- A literal that a token can spell. -/
def Value.Written : Value → Prop
  | .number x => x.negative = false
  | .bool _ => False
  | .text _ | .null => True

/-- A column or a literal that a token can spell. -/
def Operand.Written : Operand → Prop
  | .cell c => c.Written
  | .literal value => value.Written

/-- The right side of a comparison, as what a branch assigns. -/
def Operand.assigned : Operand → AssignedValue
  | .cell c => .cell c
  | .literal value => .literal value

/-! ### Number tokens -/

namespace Token

theorem exists_next_of_mem_piecesWithin {room : ℕ} {text : List Char} {piece : Piece}
    (h : piece ∈ piecesWithin room text) : ∃ c rest, (Piece.next c rest).1 = piece := by
  induction room generalizing text with
  | zero => cases h
  | succ room ih =>
    rcases text with - | ⟨c, rest⟩
    · cases h
    · rw [piecesWithin, List.mem_cons] at h
      rcases h with rfl | h
      · exact ⟨c, rest, rfl⟩
      · exact ih h

theorem Piece.exists_digit_of_other {c : Char} {rest text spelling : List Char}
    (h : (other c rest).1 = .lexeme .number text spelling) :
    c.isDigit = true ∧ ∃ more, text = c :: more := by
  rw [other] at h
  split at h
  · next hdigit =>
    refine ⟨hdigit, ?_⟩
    rw [number] at h
    split at h
    · exact ⟨_, (Piece.lexeme.inj h).2.1.symm⟩
    · exact ⟨_, (Piece.lexeme.inj h).2.1.symm⟩
  split at h
  · have hnone : Kind.number ∉ Kind.identifier :: Kind.keywords.map Prod.snd := by decide
    have hkind := (Piece.lexeme.inj h).1
    exact absurd (hkind ▸ wordKind_mem _) hnone
  split at h
  · rw [string] at h
    split at h <;> cases h
  · exact absurd (kind_mem_of_sign h) (by decide)

/-- Only what starts with a digit is a number. -/
theorem Piece.exists_digit_of_next {c : Char} {rest text spelling : List Char}
    (h : (next c rest).1 = .lexeme .number text spelling) :
    c.isDigit = true ∧ ∃ more, text = c :: more := by
  rw [next.eq_def] at h
  split at h
  · cases h
  split at h
  · exact exists_digit_of_other h
  split at h
  · cases h
  · exact exists_digit_of_other h

/-- A token that starts with a digit if it is a number. -/
def Unsigned (t : Token) : Prop :=
  t.kind = .number → ∃ c more, t.text.toList = c :: more ∧ c.isDigit = true

/-- A token of a source is a lexeme that the scanner read, or the end of input. -/
theorem exists_next_of_mem_scan {source : String} {t : Token} (h : t ∈ scan source)
    (hkind : t.kind ≠ .endOfInput) :
    ∃ c rest text spelling, (Piece.next c rest).1 = .lexeme t.kind text spelling ∧
      t.text = String.ofList text := by
  have hmark : t.mark ∈ (scan source).map mark := List.mem_map_of_mem h
  rw [map_mark_scan, List.mem_append, List.mem_singleton] at hmark
  rcases hmark with hmark | hend
  · obtain ⟨piece, hpiece, hmark⟩ := List.mem_filterMap.mp hmark
    obtain ⟨c, rest, rfl⟩ := exists_next_of_mem_piecesWithin hpiece
    rcases hnext : (Piece.next c rest).1 with d | ⟨kind, text, spelling⟩
    · rw [hnext] at hmark
      cases hmark
    · rw [hnext] at hmark
      obtain ⟨rfl, htext⟩ : kind = t.kind ∧ String.ofList text = t.text := by
        simpa [Piece.mark?, mark] using hmark
      exact ⟨c, rest, text, spelling, hnext, htext.symm⟩
  · exact absurd (Prod.mk.inj hend).1 hkind

/-- A number of a source starts with a digit. -/
theorem unsigned_of_mem_scan {source : String} {t : Token} (h : t ∈ scan source) :
    t.Unsigned := by
  intro hkind
  obtain ⟨c, rest, text, spelling, hnext, htext⟩ := exists_next_of_mem_scan h (by simp [hkind])
  rw [hkind] at hnext
  obtain ⟨hdigit, more, rfl⟩ := Piece.exists_digit_of_next hnext
  exact ⟨c, more, by rw [htext, String.toList_ofList], hdigit⟩

end Token

/-- A text that starts with a digit spells no negative number. -/
theorem Numeral.negative_of_read? {c : Char} {more : List Char} {x : Binary64}
    (hdigit : c.isDigit = true) (h : Numeral.read? (c :: more) = some x) : x.negative = false := by
  rw [Numeral.read?, Numeral.sign_of_isDigit hdigit] at h
  obtain ⟨d, -, hd⟩ := Option.bind_eq_some_iff.mp h
  obtain ⟨rank, -, hrank⟩ := Option.bind_eq_some_iff.mp hd
  rw [Binary64.ofRank?] at hrank
  split at hrank
  · cases hrank
    rfl
  · cases hrank

/-! ### Phrases -/

namespace Phrase

namespace Grammar

/-- The ladder that a level belongs to. -/
def Level.ladder : Level → Ladder
  | .alternatives | .requirements | .comparisons => .condition
  | .sums | .products => .amount

/-- The ladder that a symbol belongs to. -/
def Symbol.ladder : Symbol → Ladder
  | .level l => l.ladder
  | .operand inside => inside

theorem Level.ladder_item (level : Level) : level.item.ladder = level.ladder := by
  cases level <;> rfl

theorem Ladder.ladder_top (ladder : Ladder) : ladder.top.ladder = ladder := by
  cases ladder <;> rfl

/-- An operator of a condition joins two conditions or compares. -/
theorem Level.Joins.condition_cases {level : Level} {kind : Token.Kind} {op : Operator}
    (h : level.Joins kind op) (hladder : level.ladder = .condition) :
    (∃ k, op.connective? = some k ∧ k ≠ .first) ∨ op.isComparison = true := by
  cases h with
  | or => exact .inl ⟨.or, rfl, by decide⟩
  | and => exact .inl ⟨.and, rfl, by decide⟩
  | eq | ne | gt | ge | lt | le => exact .inr rfl
  | add | sub | mul | div => cases hladder

end Grammar

open Grammar

/-- An expression over columns and literals of a source, with the operators of a ladder. -/
inductive BuiltFrom (ladder : Ladder) : Phrase → Prop
  | cell {c : Cell} (written : c.Written) : BuiltFrom ladder (.cell c)
  | literal {value : Value} (written : value.Written) : BuiltFrom ladder (.literal value)
  | binary {left right : Phrase} {op : Operator} {level : Level} {kind : Token.Kind}
      (on : level.ladder = ladder) (joins : level.Joins kind op) (first : BuiltFrom ladder left)
      (last : BuiltFrom ladder right) : BuiltFrom ladder (.binary left op right)

/-- The phrase of a word is built from what its tokens spell, if its numbers start with digits. -/
theorem Grammar.Derives.builtFrom {symbol : Symbol} {opened : ℕ} {word : List Token}
    {phrase : Phrase} (h : Derives symbol opened word phrase)
    (hnumbers : ∀ t ∈ word, t.Unsigned) : BuiltFrom symbol.ladder phrase := by
  induction h with
  | @item level _ _ _ _ ih =>
    have hitem := ih hnumbers
    rw [level.ladder_item] at hitem
    exact hitem
  | @join level _ before after t _ _ _ _ hjoins _ ihleft ihright =>
    obtain ⟨hbefore, hafter⟩ := List.forall_mem_append.mp hnumbers
    have hright := ihright (List.forall_mem_cons.mp hafter).2
    rw [level.ladder_item] at hright
    exact .binary rfl hjoins (ihleft hbefore) hright
  | column hcolumn => exact .cell (Cell.written_of_decode? hcolumn.decoded)
  | @number _ _ t _ hkind hread =>
    obtain ⟨c, more, htext, hdigit⟩ := hnumbers t List.mem_cons_self hkind
    rw [htext] at hread
    exact .literal (Numeral.negative_of_read? hdigit hread)
  | string => exact .literal trivial
  | nothing => exact .literal trivial
  | @brackets inside _ word _ _ _ _ _ _ _ ih =>
    have hinside := ih fun t ht =>
      hnumbers t (List.mem_cons_of_mem _ (List.mem_append_left _ ht))
    rw [show (Symbol.level inside.top).ladder = inside from inside.ladder_top] at hinside
    exact hinside

end Phrase

/-! ### Rules -/

namespace Rule

open Phrase Phrase.Grammar

/-- The assignments of a rule. -/
def assignments (r : Rule) : List Assignment := r.consequent :: r.alternative.toList

/-- A rule that a source can have, with a column on the left of every comparison, a comparison in
front, and columns or literals as values. -/
structure Written (r : Rule) : Prop where
  /-- Only the first comparison has no word in front of it. -/
  joined : ∃ head tail, r.conditions = head :: tail ∧ head.connective = .first ∧
    ∀ c ∈ tail, c.connective ≠ .first
  conditions : ∀ c ∈ r.conditions,
    c.cell.Written ∧ c.operator.isComparison = true ∧ c.operand.Written
  assignments : ∀ a ∈ r.assignments,
    a.target.Written ∧ ∃ operand : Operand, operand.Written ∧ a.value = operand.assigned

theorem leftCell_of_builtFrom {ladder : Ladder} {left : Phrase} (h : BuiltFrom ladder left) :
    leftCell left = Cell.blank ∨ (leftCell left).Written := by
  cases h with
  | cell hwritten => exact .inr hwritten
  | literal => exact .inl rfl
  | binary => exact .inl rfl

theorem rightOperand_of_builtFrom {ladder : Ladder} {right : Phrase} (h : BuiltFrom ladder right) :
    (rightOperand right).Written := by
  cases h with
  | cell hwritten => exact hwritten
  | literal hwritten => exact hwritten
  | binary => exact trivial

/-- What the comparisons of a condition compare. -/
theorem conditionsOf_of_builtFrom {test : Phrase} (h : BuiltFrom .condition test) (k : Connective) :
    ∀ c ∈ conditionsOf k test, (c.cell = Cell.blank ∨ c.cell.Written) ∧ c.operand.Written := by
  induction h generalizing k with
  | cell => simp [conditionsOf]
  | literal => simp [conditionsOf]
  | binary hon hjoins hfirst hlast ihfirst ihlast =>
    obtain ⟨k', hk', -⟩ | hcompares := hjoins.condition_cases hon
    · rw [conditionsOf_join hk']
      exact List.forall_mem_append.mpr ⟨ihfirst k, ihlast k'⟩
    · rw [conditionsOf_comparison hcompares]
      simpa using ⟨leftCell_of_builtFrom hfirst, rightOperand_of_builtFrom hlast⟩

/-- Below a word every comparison has a word in front of it. -/
theorem connective_ne_first {test : Phrase} (h : BuiltFrom .condition test) {k : Connective}
    (hk : k ≠ .first) : ∀ c ∈ conditionsOf k test, c.connective ≠ .first := by
  induction h generalizing k with
  | cell => simp [conditionsOf]
  | literal => simp [conditionsOf]
  | binary hon hjoins _ _ ihfirst ihlast =>
    obtain ⟨k', hk', hne⟩ | hcompares := hjoins.condition_cases hon
    · rw [conditionsOf_join hk']
      exact List.forall_mem_append.mpr ⟨ihfirst hk, ihlast hne⟩
    · rw [conditionsOf_comparison hcompares]
      simpa using hk

/-- Behind the first comparison every other has a word in front of it. -/
theorem connective_ne_first_of_mem_tail {test : Phrase} (h : BuiltFrom .condition test)
    (k : Connective) : ∀ c ∈ (conditionsOf k test).tail, c.connective ≠ .first := by
  induction h generalizing k with
  | cell => simp [conditionsOf]
  | literal => simp [conditionsOf]
  | @binary left right _ _ _ hon hjoins _ hlast ihfirst ihlast =>
    obtain ⟨k', hk', hne⟩ | hcompares := hjoins.condition_cases hon
    · rw [conditionsOf_join hk']
      rcases hleft : conditionsOf k left with - | ⟨head, tail⟩
      · exact ihlast k'
      · have htail := ihfirst k
        rw [hleft] at htail
        exact List.forall_mem_append.mpr ⟨htail, connective_ne_first hlast hne⟩
    · rw [conditionsOf_comparison hcompares]
      simp

/-- What a branch assigns. -/
theorem exists_assigned_of_builtFrom {ladder : Ladder} {value : Phrase} (h : BuiltFrom ladder value)
    (hresolved : ∀ text, assignedValue value ≠ .unresolved text) :
    ∃ operand : Operand, operand.Written ∧ assignedValue value = operand.assigned := by
  cases h with
  | @cell c hwritten => exact ⟨.cell c, hwritten, rfl⟩
  | @literal v hwritten => exact ⟨.literal v, hwritten, rfl⟩
  | binary => exact absurd rfl (hresolved _)

/-- The target and the value of an assignment. -/
theorem assignment_of_assigns {word : List Token} {target : Cell} {value : Phrase}
    (h : Assigns word target value) (hnumbers : ∀ t ∈ word, t.Unsigned)
    (hresolved : ∀ text, assignedValue value ≠ .unresolved text) :
    target.Written ∧
      ∃ operand : Operand, operand.Written ∧ assignedValue value = operand.assigned := by
  cases h with
  | intro hcolumn _ hamount =>
    have hbuilt := hamount.builtFrom fun t ht =>
      hnumbers t (List.mem_cons_of_mem _ (List.mem_cons_of_mem _ ht))
    exact ⟨Cell.written_of_decode? hcolumn.decoded, exists_assigned_of_builtFrom hbuilt hresolved⟩

/-- The list of a condition, if it starts without a word and compares columns only. -/
theorem conditions_of_builtFrom {test : Phrase} (h : BuiltFrom .condition test)
    (hne : conditionsOf .first test ≠ [])
    (hfirst : ∀ c ∈ (conditionsOf .first test).head?, c.connective = .first)
    (hcells : ∀ c ∈ conditionsOf .first test, c.cell ≠ Cell.blank) :
    (∃ head tail, conditionsOf .first test = head :: tail ∧ head.connective = .first ∧
        ∀ c ∈ tail, c.connective ≠ .first) ∧
      ∀ c ∈ conditionsOf .first test,
        c.cell.Written ∧ c.operator.isComparison = true ∧ c.operand.Written := by
  constructor
  · obtain ⟨head, tail, hlist⟩ := List.exists_cons_of_ne_nil hne
    have htail := connective_ne_first_of_mem_tail h .first
    rw [hlist] at hfirst htail
    exact ⟨head, tail, hlist, hfirst head rfl, htail⟩
  · intro c hc
    obtain ⟨hcell, hoperand⟩ := conditionsOf_of_builtFrom h .first c hc
    exact ⟨hcell.resolve_left (hcells c hc), isComparison_of_mem_conditionsOf hc, hoperand⟩

/-- **A rule from a source.** -/
theorem written_of_parse {source : String} {phrase : Phrase} {r : Rule}
    (hparse : Phrase.parse (Token.scan source) = .ok phrase) (hrule : ofPhrase? phrase = some r)
    (hne : r.conditions ≠ []) (hfirst : ∀ c ∈ r.conditions.head?, c.connective = .first)
    (hcells : ∀ c ∈ r.conditions, c.cell ≠ Cell.blank)
    (hresolved : ∀ a ∈ r.assignments, ∀ text, a.value ≠ .unresolved text) : r.Written := by
  have hspells := parse_eq_ok_iff.mp hparse
  have hnumbers : ∀ t ∈ Phrase.content (Token.scan source), t.Unsigned :=
    fun t ht => Token.unsigned_of_mem_scan ((List.takeWhile_sublist _).subset ht)
  generalize Phrase.content (Token.scan source) = word at hspells hnumbers
  cases hspells with
  | conditional _ htest _ hassigns =>
    obtain rfl := Option.some.inj hrule
    obtain ⟨htestNumbers, hrest⟩ := List.forall_mem_append.mp (List.forall_mem_cons.mp hnumbers).2
    obtain ⟨hjoined, hconditions⟩ :=
      conditions_of_builtFrom (htest.builtFrom htestNumbers) hne hfirst hcells
    have hconsequent := assignment_of_assigns hassigns (List.forall_mem_cons.mp hrest).2
      (hresolved _ List.mem_cons_self)
    exact ⟨hjoined, hconditions, by simpa [assignments] using hconsequent⟩
  | conditionalElse _ htest _ hassigns _ hother =>
    obtain rfl := Option.some.inj hrule
    obtain ⟨htestNumbers, hrest⟩ := List.forall_mem_append.mp (List.forall_mem_cons.mp hnumbers).2
    obtain ⟨hbranch, hotherBranch⟩ := List.forall_mem_append.mp (List.forall_mem_cons.mp hrest).2
    obtain ⟨hjoined, hconditions⟩ :=
      conditions_of_builtFrom (htest.builtFrom htestNumbers) hne hfirst hcells
    have hconsequent := assignment_of_assigns hassigns hbranch (hresolved _ List.mem_cons_self)
    have halternative := assignment_of_assigns hother (List.forall_mem_cons.mp hotherBranch).2
      (hresolved _ (List.mem_cons_of_mem _ List.mem_cons_self))
    exact ⟨hjoined, hconditions, by simpa [assignments] using ⟨hconsequent, halternative⟩⟩
  | assignment => cases hrule
  | comparison => cases hrule

end Rule

end RegisterRules
