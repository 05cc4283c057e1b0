import RegisterRules.Proofs.Grammar

/-!
# The parser recognises the grammar

The parser reads a ladder by loops and looks one token ahead; the grammar is left-recursive and
looks nowhere. They agree on every token sequence.

## The two inductions

*Soundness* follows the parser: the depth of the brackets that are left, then the ladder from its
operands upwards, then the rounds of one loop.

*Completeness* follows a derivation. It is not true that a parser stops behind a word of its level,
since it goes on as long as operators follow. So the statement that the induction carries is about
the loop: behind a word of a level, in front of tokens that no tighter level would take, the loop of
that level stands with the phrase of the word in its hands and room for all the tokens that are left
(`Derives.parse_append`). Where no operator of the level follows either, that loop is over.

## Main results

* `Phrase.Grammar.exists_derives_of_parse`: what a level of the parser accepts, the grammar derives.
* `Phrase.Grammar.Derives.parse_append_of_loose`: what the grammar derives, the parser accepts.
* `Phrase.Grammar.whole_eq_ok_iff`: the parser and the grammar on whole rules.
* `Phrase.parse_recognises`: the same with the end of input, and that a sequence has one phrase.
-/

namespace RegisterRules

namespace Phrase

namespace Grammar

open RegisterRules.Phrase.Parser

variable {depth room : ℕ} {tokens rest word : List Token} {phrase : Phrase}

/-! ### The parser by symbols -/

/-- The parser of a ladder. -/
def Ladder.parse : Ladder → ℕ → List Token → Outcome Phrase
  | .condition => Parser.condition
  | .amount => Parser.amount

/-- The parser for what stands in brackets, while a bracket may still be opened. -/
def Ladder.inside (ladder : Ladder) : ℕ → Option (List Token → Outcome Phrase)
  | 0 => none
  | depth + 1 => some (ladder.parse depth)

/-- The operators of a level as the parser looks them up. -/
def Level.operator? : Level → Token.Kind → Option Operator
  | .alternatives => orOperator?
  | .requirements => andOperator?
  | .comparisons => comparison?
  | .sums => sumOperator?
  | .products => productOperator?

/-- The parser of a level in which `depth` more brackets may be opened. -/
def Level.parse (depth : ℕ) : Level → List Token → Outcome Phrase
  | .alternatives =>
    chain orOperator?
      (chain andOperator? (chain comparison? (operand (Ladder.condition.inside depth))))
  | .requirements =>
    chain andOperator? (chain comparison? (operand (Ladder.condition.inside depth)))
  | .comparisons => chain comparison? (operand (Ladder.condition.inside depth))
  | .sums => chain sumOperator? (chain productOperator? (operand (Ladder.amount.inside depth)))
  | .products => chain productOperator? (operand (Ladder.amount.inside depth))

/-- The parser of a symbol in which `depth` more brackets may be opened. -/
def Symbol.parse (depth : ℕ) : Symbol → List Token → Outcome Phrase
  | .level l => l.parse depth
  | .operand ladder => Parser.operand (ladder.inside depth)

theorem Level.parse_eq_chain (level : Level) (depth : ℕ) :
    level.parse depth = chain level.operator? (level.item.parse depth) := by
  cases level <;> rfl

theorem Ladder.parse_eq_top (ladder : Ladder) (depth : ℕ) :
    ladder.parse depth = ladder.top.parse depth := by
  cases ladder <;> cases depth <;> rfl

theorem Level.operator?_eq_some_iff {level : Level} {kind : Token.Kind} {op : Operator} :
    level.operator? kind = some op ↔ level.Joins kind op := by
  constructor
  · intro h
    cases level <;> cases kind <;> cases h <;> constructor
  · rintro (_ | _) <;> rfl

/-! ### Single tokens -/

theorem cell_eq_ok_iff {c : Cell} :
    Parser.cell tokens = .ok (c, rest) ↔ ∃ t, tokens = t :: rest ∧ IsColumn t c := by
  constructor
  · intro h
    rcases tokens with - | ⟨t, tail⟩
    · simp [Parser.cell, fail] at h
    · rw [Parser.cell] at h
      split at h
      · next hmark =>
        split at h
        · next c' hdecode =>
          obtain ⟨rfl, rfl⟩ : c' = c ∧ tail = rest := by simpa using h
          exact ⟨t, rfl, hmark, hdecode⟩
        · simp [fail] at h
      · simp [fail] at h
  · rintro ⟨t, rfl, hmark, hdecode⟩
    simp [Parser.cell, hmark, hdecode]

theorem expect_eq_ok_iff {kind : Token.Kind} {cause : Cause} :
    expect kind cause tokens = .ok rest ↔ ∃ t, tokens = t :: rest ∧ t.kind = kind := by
  rcases tokens with - | ⟨t, tail⟩
  · simp [expect]
  · by_cases h : t.kind = kind <;> simp [expect, h]

/-- A column is a name and no token of another kind. -/
theorem IsColumn.kind {t : Token} {c : Cell} (h : IsColumn t c) : t.kind = .identifier := by
  have := h.marked
  simp only [Token.isCell, Bool.and_eq_true, beq_iff_eq] at this
  exact this.1

theorem isCell_eq_false {t : Token} (h : t.kind ≠ .identifier) : t.isCell = false := by
  simp [Token.isCell, h]

/-! ### Soundness -/

/-- Whatever a parser takes is an accepted word, and the phrase that it returns belongs to it. -/
def TakesWords (parser : List Token → Outcome Phrase)
    (accepted : List Token → Phrase → Prop) : Prop :=
  ∀ tokens phrase rest, parser tokens = .ok (phrase, rest) →
    ∃ word, tokens = word ++ rest ∧ accepted word phrase

theorem exists_derives_of_operand {inside : Option (List Token → Outcome Phrase)} {ladder : Ladder}
    {opened : ℕ} (hinside : ∀ parser ∈ inside, opened < 64 ∧
      TakesWords parser (Derives (.level ladder.top) (opened + 1))) :
    TakesWords (operand inside) (Derives (.operand ladder) opened) := by
  intro tokens phrase rest h
  rcases tokens with - | ⟨t, tail⟩
  · simp [operand, fail] at h
  rw [operand.eq_def] at h
  dsimp only at h
  split at h
  · split at h
    · simp at h
    · next c rest' hcell =>
      obtain ⟨rfl, rfl⟩ : .cell c = phrase ∧ rest' = rest := by simpa using h
      obtain ⟨t', heq, hcolumn⟩ := cell_eq_ok_iff.mp hcell
      exact ⟨[t'], heq, .column hcolumn⟩
  split at h
  · next hkind =>
    split at h
    · next x hread =>
      obtain ⟨rfl, rfl⟩ : .literal (.number x) = phrase ∧ tail = rest := by simpa using h
      exact ⟨[t], rfl, .number hkind hread⟩
    · simp [fail] at h
  · next hkind =>
    obtain ⟨rfl, rfl⟩ : .literal (.text t.text) = phrase ∧ tail = rest := by simpa using h
    exact ⟨[t], rfl, .string hkind⟩
  · next hkind =>
    obtain ⟨rfl, rfl⟩ : .literal .null = phrase ∧ tail = rest := by simpa using h
    exact ⟨[t], rfl, .nothing hkind⟩
  · next hkind =>
    split at h
    · simp [fail] at h
    · next parser =>
      obtain ⟨hroom, htakes⟩ := hinside parser rfl
      split at h
      · simp at h
      · next inner behind hparse =>
        split at h
        · simp at h
        · next rest' hclose =>
          obtain ⟨rfl, rfl⟩ : inner = phrase ∧ rest' = rest := by simpa using h
          obtain ⟨word, rfl, hword⟩ := htakes _ _ _ hparse
          obtain ⟨c, rfl, hc⟩ := expect_eq_ok_iff.mp hclose
          exact ⟨t :: (word ++ [c]), by simp, .brackets hroom hkind hword hc⟩
  · simp [fail] at h

/-- A loop that stops has put nothing behind the word that is there. -/
theorem exists_derives_of_stop {symbol : Symbol} {opened : ℕ} {before : List Token} {left : Phrase}
    (hleft : Derives symbol opened before left)
    (h : (Except.ok (left, tokens) : Outcome Phrase) = .ok (phrase, rest)) :
    ∃ word, tokens = word ++ rest ∧ Derives symbol opened (before ++ word) phrase := by
  obtain ⟨rfl, rfl⟩ : left = phrase ∧ tokens = rest := by simpa using h
  exact ⟨[], rfl, by simpa using hleft⟩

/-- The rounds of one loop: each puts an operator and an item behind the word that is there. -/
theorem exists_derives_of_chainWithin {level : Level} {opened : ℕ}
    {item : List Token → Outcome Phrase} (hitem : TakesWords item (Derives level.item opened))
    {before : List Token} {left : Phrase} (hleft : Derives (.level level) opened before left)
    (h : chainWithin level.operator? item room left tokens = .ok (phrase, rest)) :
    ∃ word, tokens = word ++ rest ∧ Derives (.level level) opened (before ++ word) phrase := by
  induction room generalizing before left tokens with
  | zero => exact exists_derives_of_stop hleft h
  | succ room ih =>
    rcases tokens with - | ⟨t, tail⟩
    · exact exists_derives_of_stop hleft h
    rw [chainWithin] at h
    split at h
    · exact exists_derives_of_stop hleft h
    · next op hop =>
      split at h
      · simp at h
      · next right behind hright =>
        obtain ⟨after, rfl, hafter⟩ := hitem _ _ _ hright
        have hjoin := hleft.join (Level.operator?_eq_some_iff.mp hop) hafter
        obtain ⟨word, rfl, hword⟩ := ih hjoin h
        exact ⟨t :: (after ++ word), by simp, by simpa using hword⟩

theorem exists_derives_of_level (level : Level) {opened : ℕ}
    (hitem : TakesWords (level.item.parse depth) (Derives level.item opened)) :
    TakesWords (level.parse depth) (Derives (.level level) opened) := by
  intro tokens phrase rest h
  rw [Level.parse_eq_chain, chain] at h
  split at h
  · simp at h
  · next first behind hfirst =>
    obtain ⟨before, rfl, hbefore⟩ := hitem _ _ _ hfirst
    obtain ⟨word, rfl, hword⟩ := exists_derives_of_chainWithin hitem hbefore.item h
    exact ⟨before ++ word, by simp, hword⟩

/-- Both ladders are climbed from their operands, one level after the other. -/
theorem exists_derives_of_operands {opened : ℕ} (hoperand : ∀ ladder : Ladder,
      TakesWords (operand (ladder.inside depth)) (Derives (.operand ladder) opened))
    (symbol : Symbol) : TakesWords (symbol.parse depth) (Derives symbol opened) := by
  have hcomparisons := exists_derives_of_level .comparisons (hoperand .condition)
  have hrequirements := exists_derives_of_level .requirements hcomparisons
  have hproducts := exists_derives_of_level .products (hoperand .amount)
  rcases symbol with (- | - | - | - | -) | ladder
  · exact exists_derives_of_level .alternatives hrequirements
  · exact hrequirements
  · exact hcomparisons
  · exact exists_derives_of_level .sums hproducts
  · exact hproducts
  · exact hoperand ladder

/-- **Soundness.** What the parser of a symbol takes, the grammar derives. -/
theorem exists_derives_of_parse (symbol : Symbol) {opened : ℕ} (hdepth : opened + depth = 64) :
    TakesWords (symbol.parse depth) (Derives symbol opened) := by
  induction depth generalizing opened symbol with
  | zero =>
    refine exists_derives_of_operands (fun ladder => exists_derives_of_operand ?_) symbol
    rintro parser ⟨⟩
  | succ depth ih =>
    refine exists_derives_of_operands (fun ladder => exists_derives_of_operand ?_) symbol
    rintro parser ⟨⟩
    rw [ladder.parse_eq_top]
    exact ⟨by omega, ih (.level ladder.top) (by omega)⟩

/-! ### Completeness -/

/-- How tightly the operators of a level bind. The ladders may share numbers, since no token belongs
to both. -/
def Level.rank : Level → ℕ
  | .alternatives | .sums => 0
  | .requirements | .products => 1
  | .comparisons => 2

/-- An operand binds tighter than every operator. -/
def Symbol.rank : Symbol → ℕ
  | .level l => l.rank
  | .operand _ => 3

theorem Level.rank_lt_item (level : Level) : level.rank < level.item.rank := by
  cases level <;> decide

theorem Level.Joins.level_eq {level other : Level} {kind : Token.Kind} {op op' : Operator}
    (h : level.Joins kind op) (h' : other.Joins kind op') : level = other := by
  cases h <;> cases h' <;> rfl

/-- The next token joins no level that binds as tightly as `rank`. -/
def Loose (rank : ℕ) (tokens : List Token) : Prop :=
  ∀ t ∈ tokens.head?, ∀ level op, Level.Joins level t.kind op → level.rank < rank

theorem Loose.mono {rank rank' : ℕ} (h : Loose rank tokens) (hle : rank ≤ rank') :
    Loose rank' tokens :=
  fun t ht level op hjoins => Nat.lt_of_lt_of_le (h t ht level op hjoins) hle

theorem loose_nil (rank : ℕ) : Loose rank [] := by
  rintro t ⟨⟩

/-- A token that joins nothing ends a word of any level. -/
theorem loose_cons {t : Token} (rank : ℕ) (h : ∀ level op, ¬ Level.Joins level t.kind op) :
    Loose rank (t :: rest) := by
  rintro _ ⟨⟩ level op hjoins
  exact absurd hjoins (h level op)

/-- A token that joins a level ends a word of any tighter one. -/
theorem loose_of_joins {level : Level} {t : Token} {op : Operator} (h : level.Joins t.kind op) :
    Loose (level.rank + 1) (t :: rest) := by
  rintro _ ⟨⟩ other op' hjoins
  rw [h.level_eq hjoins]
  exact Nat.lt_succ_self _

/-- The loop of a level goes on with a phrase. An operand has no loop. -/
def Symbol.resume (depth room : ℕ) (phrase : Phrase) (rest : List Token) : Symbol → Outcome Phrase
  | .level l => chainWithin l.operator? (l.item.parse depth) room phrase rest
  | .operand _ => .ok (phrase, rest)

/-- In front of a token that is none of its own, the loop is over. -/
theorem Symbol.resume_of_loose {symbol : Symbol} (h : Loose symbol.rank rest) :
    symbol.resume depth room phrase rest = .ok (phrase, rest) := by
  rcases symbol with level | ladder
  · rcases room with - | room
    · rfl
    rcases rest with - | ⟨t, rest⟩
    · rfl
    have hnone : level.operator? t.kind = none := by
      refine Option.eq_none_iff_forall_ne_some.mpr fun op hop => ?_
      exact Nat.lt_irrefl _ (h t rfl level op (Level.operator?_eq_some_iff.mp hop))
    rw [Symbol.resume, chainWithin, hnone]
  · rfl

/-- The parser of an operand on a word of one token. -/
theorem operand_column {inside : Option (List Token → Outcome Phrase)} {t : Token} {c : Cell}
    (h : IsColumn t c) : operand inside (t :: rest) = .ok (.cell c, rest) := by
  have hcell : Parser.cell (t :: rest) = .ok (c, rest) := cell_eq_ok_iff.mpr ⟨t, rfl, h⟩
  simp [operand.eq_def, h.marked, hcell]

/-- The parser of an operand on a word in brackets. -/
theorem operand_brackets {parser : List Token → Outcome Phrase} {o c : Token}
    (hopening : o.kind = .openParen)
    (hcontent : parser (word ++ c :: rest) = .ok (phrase, c :: rest))
    (hclosing : c.kind = .closeParen) :
    operand (some parser) (o :: (word ++ c :: rest)) = .ok (phrase, rest) := by
  have hexpect : expect .closeParen .noClosing (c :: rest) = .ok rest :=
    expect_eq_ok_iff.mpr ⟨c, rfl, hclosing⟩
  have hmark : o.isCell = false := isCell_eq_false (by simp [hopening])
  simp [operand.eq_def, hmark, hopening, hcontent, hexpect]

/-- **Completeness, one word at a time.** Behind a word of a symbol, in front of a token that no
tighter level would take, the loop of the symbol holds the phrase of the word. -/
theorem Derives.parse_append {symbol : Symbol} {opened : ℕ} (h : Derives symbol opened word phrase)
    (hdepth : opened + depth = 64) (hrest : Loose (symbol.rank + 1) rest) :
    ∃ room, rest.length ≤ room ∧
      symbol.parse depth (word ++ rest) = symbol.resume depth room phrase rest := by
  induction h generalizing depth rest with
  | @item level opened word phrase _ ih =>
    -- The first item of a loop: its own loop is over, and that of the level begins.
    have hloose : Loose level.item.rank rest := hrest.mono level.rank_lt_item
    obtain ⟨room, -, hparse⟩ := ih hdepth (hloose.mono (Nat.le_succ _))
    rw [Symbol.resume_of_loose hloose] at hparse
    refine ⟨rest.length, Nat.le_refl _, ?_⟩
    rw [Symbol.parse, Level.parse_eq_chain, chain, hparse]
    rfl
  | @join level opened before after t op left right _ hjoins _ ihleft ihright =>
    -- One more round: the loop has come up to the operator, and the item behind it is read.
    have hnext : Loose (level.rank + 1) (t :: (after ++ rest)) := loose_of_joins hjoins
    obtain ⟨room, hroom, hleft⟩ := ihleft hdepth hnext
    obtain ⟨room, rfl⟩ : ∃ room', room = room' + 1 := by
      rw [List.length_cons] at hroom
      exact Nat.exists_eq_add_one_of_ne_zero (by omega)
    have hloose : Loose level.item.rank rest := hrest.mono level.rank_lt_item
    obtain ⟨_, -, hright⟩ := ihright hdepth (hloose.mono (Nat.le_succ _))
    rw [Symbol.resume_of_loose hloose] at hright
    refine ⟨room, ?_, ?_⟩
    · rw [List.length_cons, List.length_append] at hroom
      omega
    · rw [List.append_assoc, List.cons_append, hleft, Symbol.resume, chainWithin,
        Level.operator?_eq_some_iff.mpr hjoins]
      simp only [hright, Symbol.resume]
  | column hcolumn => exact ⟨rest.length, Nat.le_refl _, operand_column hcolumn⟩
  | @number _ _ t x hkind hread =>
    have hmark : t.isCell = false := isCell_eq_false (by simp [hkind])
    exact ⟨rest.length, Nat.le_refl _,
      by simp [Symbol.parse, Symbol.resume, operand.eq_def, hmark, hkind, hread]⟩
  | @string _ _ t hkind =>
    have hmark : t.isCell = false := isCell_eq_false (by simp [hkind])
    exact ⟨rest.length, Nat.le_refl _,
      by simp [Symbol.parse, Symbol.resume, operand.eq_def, hmark, hkind]⟩
  | @nothing _ _ t hkind =>
    have hmark : t.isCell = false := isCell_eq_false (by simp [hkind])
    exact ⟨rest.length, Nat.le_refl _,
      by simp [Symbol.parse, Symbol.resume, operand.eq_def, hmark, hkind]⟩
  | @brackets ladder opened word phrase o c hroom hopening _ hclosing ih =>
    obtain ⟨depth, rfl⟩ : ∃ depth', depth = depth' + 1 :=
      Nat.exists_eq_add_one_of_ne_zero (by omega)
    have hend : ∀ rank, Loose rank (c :: rest) := fun rank =>
      loose_cons rank fun level op hjoins => by rw [hclosing] at hjoins; cases hjoins
    obtain ⟨_, -, hparse⟩ := ih (by omega : opened + 1 + depth = 64) (hend _)
    rw [Symbol.resume_of_loose (hend _)] at hparse
    refine ⟨rest.length, Nat.le_refl _, ?_⟩
    rw [List.cons_append, List.append_assoc, List.singleton_append]
    refine operand_brackets hopening ?_ hclosing
    rw [ladder.parse_eq_top]
    exact hparse

/-- **Completeness.** What the grammar derives, the parser of the symbol takes, if no operator of
the ladder follows. -/
theorem Derives.parse_append_of_loose {symbol : Symbol} {opened : ℕ}
    (h : Derives symbol opened word phrase) (hdepth : opened + depth = 64)
    (hrest : Loose symbol.rank rest) :
    symbol.parse depth (word ++ rest) = .ok (phrase, rest) := by
  obtain ⟨room, -, hparse⟩ := h.parse_append hdepth (hrest.mono (Nat.le_succ _))
  rw [hparse, Symbol.resume_of_loose hrest]

/-! ### Whole rules -/

/-- The parser of a ladder on a word of it, with no bracket open. -/
theorem Ladder.parse_append (ladder : Ladder) (h : Derives (.level ladder.top) 0 word phrase)
    (hrest : ∀ rank, Loose rank rest) :
    ladder.parse maxDepth (word ++ rest) = .ok (phrase, rest) := by
  rw [ladder.parse_eq_top]
  exact h.parse_append_of_loose rfl (hrest _)

theorem Ladder.exists_derives (ladder : Ladder)
    (h : ladder.parse maxDepth tokens = .ok (phrase, rest)) :
    ∃ word, tokens = word ++ rest ∧ Derives (.level ladder.top) 0 word phrase := by
  rw [ladder.parse_eq_top] at h
  exact exists_derives_of_parse (.level ladder.top) rfl tokens phrase rest h

/-- The words that end expressions: keywords join nothing. -/
theorem not_joins_of_kind {t : Token} (h : t.kind = .thenWord ∨ t.kind = .elseWord) (level : Level)
    (op : Operator) : ¬ level.Joins t.kind op := by
  intro hjoins
  rcases h with h | h <;> rw [h] at hjoins <;> cases hjoins

theorem exists_assigns_of_assignment {target : Cell} {value : Phrase}
    (h : Parser.assignment tokens = .ok ((target, value), rest)) :
    ∃ word, tokens = word ++ rest ∧ Assigns word target value := by
  rw [Parser.assignment] at h
  split at h
  · simp at h
  · next c behind hcell =>
    obtain ⟨t, rfl, hcolumn⟩ := cell_eq_ok_iff.mp hcell
    split at h
    · simp at h
    · next behind' hexpect =>
      obtain ⟨e, rfl, hassign⟩ := expect_eq_ok_iff.mp hexpect
      split at h
      · simp at h
      · next v behind'' hamount =>
        obtain ⟨⟨rfl, rfl⟩, rfl⟩ : (c = target ∧ v = value) ∧ behind'' = rest := by simpa using h
        obtain ⟨word, rfl, hword⟩ := Ladder.amount.exists_derives hamount
        exact ⟨t :: e :: word, rfl, .intro hcolumn hassign hword⟩

theorem Assigns.assignment_append {target : Cell} {value : Phrase} (h : Assigns word target value)
    (hrest : ∀ rank, Loose rank rest) :
    Parser.assignment (word ++ rest) = .ok ((target, value), rest) := by
  obtain @⟨t, e, _, word, _, hcolumn, hassign, hamount⟩ := h
  have hcell : Parser.cell (t :: e :: (word ++ rest)) = .ok (target, e :: (word ++ rest)) :=
    cell_eq_ok_iff.mpr ⟨t, rfl, hcolumn⟩
  have hexpect : expect .assign .noAssign (e :: (word ++ rest)) = .ok (word ++ rest) :=
    expect_eq_ok_iff.mpr ⟨e, rfl, hassign⟩
  have hvalue := Ladder.amount.parse_append hamount hrest
  rw [Ladder.parse] at hvalue
  simp only [List.cons_append, Parser.assignment, hcell, hexpect, hvalue]

theorem exists_spells_of_branches {first next : Token} {test : Phrase}
    (hfirst : first.kind = .ifWord) (htest : Derives (.level .alternatives) 0 word test)
    (hnext : next.kind = .thenWord) (h : branches test tokens = .ok (phrase, rest)) :
    ∃ branch, tokens = branch ++ rest ∧ Spells (first :: (word ++ next :: branch)) phrase := by
  rw [branches] at h
  split at h
  · simp at h
  · next target value hassign =>
    obtain ⟨rfl, rfl⟩ : .conditional test target value = phrase ∧ [] = rest := by simpa using h
    obtain ⟨branch, rfl, hbranch⟩ := exists_assigns_of_assignment hassign
    exact ⟨branch, rfl, .conditional hfirst htest hnext hbranch⟩
  · next target value t behind hassign =>
    obtain ⟨branch, rfl, hbranch⟩ := exists_assigns_of_assignment hassign
    split at h
    · next hlast =>
      split at h
      · simp at h
      · next otherTarget otherValue behind' hother =>
        obtain ⟨rfl, rfl⟩ : .conditionalElse test target value otherTarget otherValue = phrase ∧
            behind' = rest := by simpa using h
        obtain ⟨otherBranch, rfl, hotherBranch⟩ := exists_assigns_of_assignment hother
        exact ⟨branch ++ t :: otherBranch, by simp,
          .conditionalElse hfirst htest hnext hbranch hlast hotherBranch⟩
    · obtain ⟨rfl, rfl⟩ : .conditional test target value = phrase ∧ t :: behind = rest := by
        simpa using h
      exact ⟨branch, rfl, .conditional hfirst htest hnext hbranch⟩

theorem exists_spells_of_bare (h : bare tokens = .ok (phrase, rest)) :
    ∃ word, tokens = word ++ rest ∧ Spells word phrase := by
  rw [bare] at h
  split at h
  · simp at h
  · simp [fail] at h
  · next c e behind hcell =>
    obtain ⟨t, rfl, hcolumn⟩ := cell_eq_ok_iff.mp hcell
    split at h
    · next hassign =>
      split at h
      · simp at h
      · next value behind' hamount =>
        obtain ⟨rfl, rfl⟩ : .assignment c value = phrase ∧ behind' = rest := by simpa using h
        obtain ⟨word, rfl, hword⟩ := Ladder.amount.exists_derives hamount
        exact ⟨t :: e :: word, rfl, .assignment (.intro hcolumn hassign hword)⟩
    split at h
    · next hequals =>
      split at h
      · simp at h
      · next right behind' hcondition =>
        obtain ⟨rfl, rfl⟩ : .binary (.cell c) .eq right = phrase ∧ behind' = rest := by
          simpa using h
        obtain ⟨word, rfl, hword⟩ := Ladder.condition.exists_derives hcondition
        exact ⟨t :: e :: word, rfl, .comparison hcolumn hequals hword⟩
    · simp [fail] at h

/-- What the parser takes as a rule, the grammar spells. -/
theorem exists_spells_of_statement (h : statement tokens = .ok (phrase, rest)) :
    ∃ word, tokens = word ++ rest ∧ Spells word phrase := by
  rcases tokens with - | ⟨first, tail⟩
  · simp [statement, fail] at h
  rw [statement] at h
  split at h
  · next hfirst =>
    rw [Parser.conditional] at h
    split at h
    · simp at h
    · next test behind hcondition =>
      obtain ⟨word, rfl, hword⟩ := Ladder.condition.exists_derives hcondition
      split at h
      · simp at h
      · next behind' hexpect =>
        obtain ⟨next, rfl, hnext⟩ := expect_eq_ok_iff.mp hexpect
        obtain ⟨branch, rfl, hspells⟩ := exists_spells_of_branches hfirst hword hnext h
        exact ⟨first :: (word ++ next :: branch), by simp, hspells⟩
  split at h
  · exact exists_spells_of_bare h
  · simp [fail] at h

/-- The parser behind the condition of a conditional. -/
theorem statement_conditional {first next : Token} {test : Phrase} (hfirst : first.kind = .ifWord)
    (htest : Derives (.level .alternatives) 0 word test) (hnext : next.kind = .thenWord) :
    statement (first :: (word ++ next :: rest)) = branches test rest := by
  have hloose : ∀ rank, Loose rank (next :: rest) := fun rank =>
    loose_cons rank (not_joins_of_kind (.inl hnext))
  have hcondition := Ladder.condition.parse_append htest hloose
  have hexpect : expect .thenWord .noThen (next :: rest) = .ok rest :=
    expect_eq_ok_iff.mpr ⟨next, rfl, hnext⟩
  rw [Ladder.parse] at hcondition
  simp only [statement, hfirst, if_true, Parser.conditional, hcondition, hexpect]

/-- The parser on a rule that starts with a column. -/
theorem statement_bare {t : Token} {c : Cell} (hcolumn : IsColumn t c) :
    statement (t :: rest) = bare (t :: rest) := by
  simp [statement, hcolumn.kind, hcolumn.marked]

/-- What the grammar spells, the parser takes as a rule. -/
theorem Spells.statement_eq_ok (h : Spells word phrase) : statement word = .ok (phrase, []) := by
  have hend : ∀ rank, Loose rank [] := loose_nil
  cases h with
  | @conditional first next word branch test value target hfirst htest hnext hassigns =>
    have hbranch := hassigns.assignment_append hend
    rw [List.append_nil] at hbranch
    rw [statement_conditional hfirst htest hnext, branches, hbranch]
  | @conditionalElse first next last word branch otherBranch test value otherValue target
      otherTarget hfirst htest hnext hassigns hlast hother =>
    have hbranch := hassigns.assignment_append
      (fun rank => loose_cons rank (not_joins_of_kind (.inr hlast)) :
        ∀ rank, Loose rank (last :: otherBranch))
    have hotherBranch := hother.assignment_append hend
    rw [List.append_nil] at hotherBranch
    rw [statement_conditional hfirst htest hnext, branches, hbranch]
    simp only [hlast, if_true, hotherBranch]
  | @assignment word c value hassigns =>
    obtain @⟨t, e, _, word, _, hcolumn, hassign, hamount⟩ := hassigns
    have hcell : Parser.cell (t :: e :: word) = .ok (c, e :: word) :=
      cell_eq_ok_iff.mpr ⟨t, rfl, hcolumn⟩
    have hvalue := Ladder.amount.parse_append hamount hend
    rw [Ladder.parse, List.append_nil] at hvalue
    rw [statement_bare hcolumn, bare, hcell]
    simp only [hassign, if_true, hvalue]
  | @comparison t e c word right hcolumn hequals hcondition =>
    have hcell : Parser.cell (t :: e :: word) = .ok (c, e :: word) :=
      cell_eq_ok_iff.mpr ⟨t, rfl, hcolumn⟩
    have hright := Ladder.condition.parse_append hcondition hend
    rw [Ladder.parse, List.append_nil] at hright
    rw [statement_bare hcolumn, bare, hcell]
    simp [hequals, hright]

/-- **The parser and the grammar agree on whole rules.** -/
theorem whole_eq_ok_iff : whole tokens = .ok phrase ↔ Spells tokens phrase := by
  constructor
  · intro h
    rw [whole] at h
    split at h
    · simp at h
    · next p hstatement =>
      obtain rfl : p = phrase := by simpa using h
      obtain ⟨word, rfl, hword⟩ := exists_spells_of_statement hstatement
      simpa using hword
    · simp at h
  · intro h
    rw [whole, h.statement_eq_ok]

end Grammar

open Grammar

/-! ### The end of input -/

/-- The tokens before an end of input do not depend on what follows it. -/
theorem content_append_end {e : Token} (he : e.kind = .endOfInput) (before after : List Token) :
    content (before ++ e :: after) = content (before ++ [e]) := by
  induction before with
  | nil => simp [content, he]
  | cons t before ih =>
    by_cases ht : t.kind = .endOfInput
    · simp [content, ht]
    · simpa [content, ht] using ih

/-- Nor does the place of the first end of input. -/
theorem ending_append_end {e : Token} (he : e.kind = .endOfInput) (before after : List Token) :
    ending (before ++ e :: after) = ending (before ++ [e]) := by
  simp [ending, List.find?_append, he]

theorem parse_eq_ok_iff {tokens : List Token} {phrase : Phrase} :
    parse tokens = .ok phrase ↔ Spells (content tokens) phrase := by
  rw [← whole_eq_ok_iff, parse]
  split
  · next p h => rw [h]; simp
  · next failure h => rw [h]; simp

/-- **The parser accepts exactly the grammar and builds its tree.** A token sequence parses to a
phrase if and only if the tokens before its first end of input spell that phrase; they spell at most
one; and whatever follows an end of input plays no part, in errors as little as in phrases. -/
theorem parse_recognises (tokens : List Token) :
    (∀ phrase, parse tokens = .ok phrase ↔
      Spells (tokens.takeWhile (·.kind ≠ .endOfInput)) phrase) ∧
    (∀ phrase other, Spells (tokens.takeWhile (·.kind ≠ .endOfInput)) phrase →
      Spells (tokens.takeWhile (·.kind ≠ .endOfInput)) other → phrase = other) ∧
    (∀ before e after, tokens = before ++ e :: after → e.kind = .endOfInput →
      parse tokens = parse (before ++ [e])) := by
  refine ⟨fun phrase => parse_eq_ok_iff, fun phrase other h h' => ?_, ?_⟩
  · have hparse : parse tokens = .ok phrase := parse_eq_ok_iff.mpr h
    have hother : parse tokens = .ok other := parse_eq_ok_iff.mpr h'
    rw [hother] at hparse
    simpa using hparse.symm
  · rintro before e after rfl he
    rw [parse, parse, content_append_end he, ending_append_end he]

end Phrase

end RegisterRules
