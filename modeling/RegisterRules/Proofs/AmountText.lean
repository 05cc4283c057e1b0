import RegisterRules.Proofs.Concatenation

/-!
# The text of an amount is an amount

The text that is kept for an arithmetic value puts every operand that is an operation itself in
brackets, needed or not. It is source text for the same value: behind a column and an equals sign it
is scanned and parsed to the expression that it was made from, with the digits of every column as
they were written. What stands in its way is the scanner's minus, which is never part of a number,
and the limit on open brackets.

## The way around

*Characters to lexemes.* Between operators and operands stand blanks, but a bracket stands next to
its content. So a lexeme has to be the same in front of a closing bracket as in front of a blank
(`CutInto`); an opening bracket is a lexeme whatever follows.

*Lexemes to phrases.* Every operand is a single lexeme or stands in brackets, so one operator at a
time is left on the ladder. The induction carries the brackets that are open: as long as the row of
tokens opens no more than 64, the production for brackets applies, and what is left of the row keeps
to the limit as well (`SpelledAs`).

## Main definitions

* `Token.nesting`: the most brackets that are open at once in a row of tokens.
* `Phrase.amounts`, `Phrase.literals`: what a phrase assigns, and the literals of an expression.
* `Phrase.pieces`: the lexemes of the text of an expression, with the blanks between them.

## Main results

* `Phrase.BuiltFrom.cutInto_source`: the text of an expression is cut into its lexemes.
* `Phrase.BuiltFrom.derives_iff`: these spell the expression if and only if the brackets allow it.
* `Phrase.source_reads_back`: the text of an amount behind a column.
-/

namespace RegisterRules

namespace Token

/-! ### Lexemes in front of a closing bracket -/

/-- A text in front of which every lexeme is over: it ends, or starts with a blank or a closing
bracket. -/
def Ends (rest : List Char) : Prop := ∀ d ∈ rest.head?, d = ' ' ∨ d = ')'

theorem ends_nil : Ends [] := by simp [Ends]

theorem ends_blank (rest : List Char) : Ends (' ' :: rest) := by simp [Ends]

theorem ends_closing (rest : List Char) : Ends (')' :: rest) := by simp [Ends]

/-- A text is cut into some pieces, whatever comes behind it. -/
def CutInto (text : List Char) (cut : List Piece) : Prop :=
  ∀ rest, Ends rest → pieces (text ++ rest) = cut ++ pieces rest

/-- A stable piece that is no string without its second quote. -/
theorem Piece.Stable.cutInto {piece : Piece} (h : piece.Stable)
    (hclosed : ∀ text spelling, piece = .lexeme .string text spelling →
      text.length + 1 < spelling.length) : CutInto piece.spelling [piece] := by
  obtain ⟨c, cs, hspelling, hnext⟩ := h
  have halone : Piece.next c cs = (piece, []) := by
    simpa using hnext [] (by simp [Breaks])
  intro rest hrest
  rcases rest with - | ⟨w, rest⟩
  · rw [hspelling, List.cons_append, pieces_cons, List.append_nil, halone]
    rfl
  have hw : Bounds w := by
    obtain rfl | rfl := hrest w rfl
    · exact bounds_of_isBlank (by decide)
    · exact ⟨by decide +kernel, by decide, by decide⟩
  have hstring : ∀ text spelling, (Piece.next c cs).1 = .lexeme .string text spelling →
      text.length < cs.length := by
    intro text spelling hpiece
    rw [halone] at hpiece
    obtain rfl : piece = .lexeme .string text spelling := hpiece
    have hlength := hclosed text spelling rfl
    rw [show spelling = c :: cs from hspelling, List.length_cons] at hlength
    omega
  rw [hspelling, List.cons_append, pieces_cons, Piece.next_append_cons hw hstring, halone]
  rfl

/-- A bracket is a lexeme whatever follows it. -/
theorem pieces_bracket {c : Char} (hc : c = '(' ∨ c = ')') (rest : List Char) :
    pieces (c :: rest) = .plain (Piece.signKind c) [c] :: pieces rest := by
  have hchar : Text.isBlank c = false ∧ c.isDigit = false ∧ Text.isAlphabetic c = false ∧
      Text.lower c ≠ 'г' ∧ ¬ (c = '"' ∨ c = '\'') ∧ ∀ d, Piece.pairKind? c d = none := by
    obtain rfl | rfl := hc
    · exact ⟨by decide, by decide, by decide +kernel, by decide, by decide,
        fun d => by simp [Piece.pairKind?]⟩
    · exact ⟨by decide, by decide, by decide +kernel, by decide, by decide,
        fun d => by simp [Piece.pairKind?]⟩
  obtain ⟨hblank, hdigit, hletter, hlower, hquote, hpair⟩ := hchar
  have hsign : Piece.sign c rest = (.plain (Piece.signKind c) [c], rest) := by
    rcases rest with - | ⟨d, more⟩
    · rfl
    · rw [Piece.sign, hpair]
  rw [pieces_cons, Piece.next_of_not_isAlphabetic hblank hdigit hletter
    fun d _ => Piece.isMark_eq_false hlower, if_neg hquote, hsign]

theorem pieces_blank (rest : List Char) : pieces (' ' :: rest) = .blank ' ' :: pieces rest := by
  rw [pieces_cons, Piece.next.eq_def, if_pos (by decide)]

/-- The lexemes of a text in brackets. -/
def inBrackets (needed : Bool) (cut : List Piece) : List Piece :=
  if needed then .plain .openParen ['('] :: (cut ++ [.plain .closeParen [')']]) else cut

theorem CutInto.bracketed {text : String} {cut : List Piece} (h : CutInto text.toList cut)
    (needed : Bool) : CutInto (Phrase.bracketed needed text).toList (inBrackets needed cut) := by
  cases needed with
  | false => exact h
  | true =>
    intro rest _
    have hinside := h (')' :: rest) (ends_closing rest)
    rw [pieces_bracket (.inr rfl)] at hinside
    have htext : (Phrase.bracketed true text).toList ++ rest =
        '(' :: (text.toList ++ ')' :: rest) := by simp [Phrase.bracketed]
    rw [htext, pieces_bracket (.inl rfl), hinside]
    simp [inBrackets, Piece.signKind]

theorem CutInto.joined {first last : List Char} {before after : List Piece}
    (hfirst : CutInto first before) (op : Operator) (hlast : CutInto last after) :
    CutInto (first ++ ' ' :: (op.symbol.toList ++ ' ' :: last))
      (before ++ .blank ' ' :: op.piece :: .blank ' ' :: after) := by
  intro rest hrest
  have hop : pieces (op.symbol.toList ++ ' ' :: (last ++ rest)) =
      op.piece :: pieces (' ' :: (last ++ rest)) :=
    op.stable_piece.pieces_append (by simp [Piece.Breaks])
  rw [List.append_assoc, List.cons_append, List.append_assoc, List.cons_append,
    hfirst _ (ends_blank _), pieces_blank, hop, pieces_blank, hlast rest hrest]
  simp

/-! ### Open brackets -/

/-- The most brackets that are open at once in a row of tokens, when `opened` are open in front of
it. -/
def nestingFrom (opened : ℕ) : List Token → ℕ
  | [] => opened
  | t :: rest =>
    if t.kind = .openParen then nestingFrom (opened + 1) rest
    else if t.kind = .closeParen then max opened (nestingFrom (opened - 1) rest)
    else nestingFrom opened rest

/-- The most brackets that are open at once in a row of tokens. -/
def nesting (tokens : List Token) : ℕ := nestingFrom 0 tokens

theorem nestingFrom_opening {t : Token} (h : t.kind = .openParen) (opened : ℕ)
    (rest : List Token) : nestingFrom opened (t :: rest) = nestingFrom (opened + 1) rest := by
  rw [nestingFrom, if_pos h]

theorem nestingFrom_closing {t : Token} (h : t.kind = .closeParen) (opened : ℕ)
    (rest : List Token) :
    nestingFrom (opened + 1) (t :: rest) = max (opened + 1) (nestingFrom opened rest) := by
  rw [nestingFrom, if_neg (by simp [h]), if_pos h, Nat.add_sub_cancel]

theorem nestingFrom_other {t : Token} (hopening : t.kind ≠ .openParen)
    (hclosing : t.kind ≠ .closeParen) (opened : ℕ) (rest : List Token) :
    nestingFrom opened (t :: rest) = nestingFrom opened rest := by
  rw [nestingFrom, if_neg hopening, if_neg hclosing]

/-- Only the kinds of the tokens count. -/
theorem nestingFrom_congr {tokens tokens' : List Token}
    (h : tokens.map Token.kind = tokens'.map Token.kind) (opened : ℕ) :
    nestingFrom opened tokens = nestingFrom opened tokens' := by
  induction tokens generalizing tokens' opened with
  | nil =>
    rw [List.map_eq_nil_iff.mp h.symm]
  | cons t tokens ih =>
    obtain ⟨t', rest, rfl, ht, hrest⟩ := List.map_eq_cons_iff.mp h.symm
    simp only [nestingFrom, ht, ih hrest.symm]

/-! ### The tokens of a text that is cut into pieces -/

/-- The tokens of a source carry its pieces. -/
theorem carries_lexemes (source : String) : Carries (lexemes source) (pieces source.toList) := by
  obtain ⟨_, -, -, hmarks⟩ := exists_covers_lexemes source
  exact List.append_cancel_right (hmarks.symm.trans (map_mark_scan source))

theorem Carries.of_blank {tokens : List Token} {c : Char} {cut : List Piece}
    (h : Carries tokens (.blank c :: cut)) : Carries tokens cut := h

theorem Carries.map_kind_eq {tokens tokens' : List Token} {cut : List Piece}
    (h : Carries tokens cut) (h' : Carries tokens' cut) :
    tokens.map Token.kind = tokens'.map Token.kind := by
  have hmarks : tokens.map mark = tokens'.map mark := h.trans h'.symm
  have hkinds := congrArg (List.map Prod.fst) hmarks
  rwa [List.map_map, List.map_map] at hkinds

end Token

open Token

/-- An operand as a phrase. -/
def Operand.phrase : Operand → Phrase
  | .cell c => .cell c
  | .literal value => .literal value

namespace Phrase

open Grammar

/-! ### The lexemes of an expression -/

/-- The lexemes of the text of an expression, with the blanks between them. -/
def pieces : Phrase → List Piece
  | .cell c => [c.piece]
  | .literal value => [value.piece]
  | .binary left op right =>
    inBrackets left.isBinary left.pieces ++
      .blank ' ' :: op.piece :: .blank ' ' :: inBrackets right.isBinary right.pieces
  | _ => []

/-- The literals of an expression, from left to right. -/
def literals : Phrase → List Value
  | .literal value => [value]
  | .binary left _ right => left.literals ++ right.literals
  | _ => []

/-- The text literals of an expression. -/
def texts (phrase : Phrase) : List String := phrase.literals.filterMap Value.text?

/-- The numbers of an expression. -/
def numbers (phrase : Phrase) : List Binary64 := phrase.literals.filterMap Value.number?

variable {ladder : Ladder} {v : Phrase}

/-- **The text of an expression is cut into its lexemes**, if no text literal holds a quote. -/
theorem BuiltFrom.cutInto_source (h : BuiltFrom ladder v)
    (hquotes : ∀ s ∈ v.texts, '"' ∉ s.toList) : CutInto v.source.toList v.pieces := by
  induction h with
  | @cell c hwritten =>
    refine Piece.Stable.cutInto hwritten.stable_piece ?_
    intro text spelling hpiece
    cases hpiece
  | @literal value hwritten =>
    have hstable : value.piece.Stable := by
      refine hwritten.stable_piece fun s hs => hquotes s ?_
      simp [texts, literals, hs, Value.text?]
    rw [source, ← Value.spelling_piece]
    refine hstable.cutInto ?_
    intro text spelling hpiece
    cases value with
    | text s =>
      cases hpiece
      simp
    | number | bool | null => cases hpiece
  | @binary left right op _ _ _ _ _ _ ihleft ihright =>
    simp only [texts, literals, List.filterMap_append, List.forall_mem_append] at hquotes
    have hjoined := ((ihleft hquotes.1).bracketed left.isBinary).joined op
      ((ihright hquotes.2).bracketed right.isBinary)
    simpa [source, pieces] using hjoined

/-! ### From the lexemes back to the expression -/

/-- Tokens that carry some lexemes come from a symbol and have a phrase, as long as no more than 64
brackets are open in the row that they begin. -/
def SpelledAs (symbol : Symbol) (cut : List Piece) (v : Phrase) : Prop :=
  ∀ opened tokens rest, Carries tokens cut → nestingFrom opened (tokens ++ rest) ≤ 64 →
    Derives symbol opened tokens v ∧ nestingFrom opened rest ≤ 64

theorem spelledAs_operand {operand : Operand} (h : operand.Written) (inside : Ladder) :
    SpelledAs (.operand inside) [operand.piece] operand.phrase := by
  intro opened tokens rest htokens hroom
  obtain ⟨t, more, rfl, ht, hmore⟩ := htokens.exists_cons operand.isSome_mark?_piece
  obtain rfl := hmore.eq_nil
  have hother : t.kind ≠ .openParen → t.kind ≠ .closeParen → nestingFrom opened rest ≤ 64 := by
    intro hopening hclosing
    rwa [List.singleton_append, nestingFrom_other hopening hclosing] at hroom
  cases h.spells ht with
  | column hcolumn =>
    exact ⟨.column hcolumn, hother (by simp [hcolumn.kind]) (by simp [hcolumn.kind])⟩
  | number hkind hread => exact ⟨.number hkind hread, hother (by simp [hkind]) (by simp [hkind])⟩
  | string hkind => exact ⟨.string hkind, hother (by simp [hkind]) (by simp [hkind])⟩
  | nothing hkind => exact ⟨.nothing hkind, hother (by simp [hkind]) (by simp [hkind])⟩

theorem SpelledAs.brackets {cut : List Piece} (h : SpelledAs (.level .sums) cut v) :
    SpelledAs (.operand .amount) (inBrackets true cut) v := by
  intro opened tokens rest htokens hroom
  obtain ⟨o, tokens, rfl, ho, htokens⟩ := htokens.exists_cons rfl
  obtain ⟨word, last, rfl, hword, hlast⟩ := htokens.exists_append
  obtain ⟨c, more, rfl, hc, hmore⟩ := hlast.exists_cons rfl
  obtain rfl := hmore.eq_nil
  have hopening : o.kind = .openParen := kind_of_mark? ho
  have hclosing : c.kind = .closeParen := kind_of_mark? hc
  rw [List.cons_append, nestingFrom_opening hopening, List.append_assoc] at hroom
  obtain ⟨hinside, hbehind⟩ := h (opened + 1) word ([c] ++ rest) hword hroom
  rw [List.singleton_append, nestingFrom_closing hclosing] at hbehind
  exact ⟨.brackets (by omega) hopening hinside hclosing, by omega⟩

/-- Each operator has one kind of token. -/
theorem Grammar.Level.Joins.kind_eq {level : Level} {kind : Token.Kind} {op : Operator}
    (h : level.Joins kind op) : kind = op.kind := by
  cases h <;> rfl

/-- No operator is a bracket. -/
theorem Grammar.Level.Joins.kind_ne {level : Level} {kind : Token.Kind} {op : Operator}
    (h : level.Joins kind op) : kind ≠ .openParen ∧ kind ≠ .closeParen := by
  cases h <;> exact ⟨by decide, by decide⟩

/-- Two operands with an arithmetic operator between them. -/
theorem derives_joined {level : Level} {opened : ℕ} {before after : List Token} {t : Token}
    {op : Operator} {left right : Phrase} (hladder : level.ladder = .amount)
    (hjoins : level.Joins t.kind op) (hleft : Derives (.operand .amount) opened before left)
    (hright : Derives (.operand .amount) opened after right) :
    Derives (.level .sums) opened (before ++ t :: after) (.binary left op right) := by
  cases level with
  | sums => exact .join (.item (.item hleft)) hjoins (.item hright)
  | products => exact .item (.join (.item hleft) hjoins hright)
  | _ => cases hladder

theorem SpelledAs.joined {level : Level} {kind : Token.Kind} {op : Operator} {left right : Phrase}
    {before after : List Piece} (hladder : level.ladder = .amount) (hjoins : level.Joins kind op)
    (hleft : SpelledAs (.operand .amount) before left)
    (hright : SpelledAs (.operand .amount) after right) :
    SpelledAs (.level .sums) (before ++ .blank ' ' :: op.piece :: .blank ' ' :: after)
      (.binary left op right) := by
  intro opened tokens rest htokens hroom
  obtain ⟨first, tokens, rfl, hfirst, htokens⟩ := htokens.exists_append
  obtain ⟨o, last, rfl, ho, hlast⟩ := htokens.of_blank.exists_cons rfl
  have hkind : o.kind = kind := (kind_of_mark? ho).trans hjoins.kind_eq.symm
  rw [← hkind] at hjoins
  rw [List.append_assoc] at hroom
  obtain ⟨hfirst, hroom⟩ := hleft opened first _ hfirst hroom
  rw [List.cons_append, nestingFrom_other hjoins.kind_ne.1 hjoins.kind_ne.2] at hroom
  obtain ⟨hlast, hrest⟩ := hright opened last rest hlast.of_blank hroom
  exact ⟨derives_joined hladder hjoins hfirst hlast, hrest⟩

/-- **The lexemes of an amount spell it**, as a whole ladder and, in brackets if it is an operation,
as an operand. -/
theorem BuiltFrom.spelledAs (h : BuiltFrom .amount v) :
    SpelledAs (.level .sums) v.pieces v ∧
      SpelledAs (.operand .amount) (inBrackets v.isBinary v.pieces) v := by
  -- a single lexeme is an operand, and with it a whole ladder
  have hladder : ∀ {cut : List Piece} {v : Phrase}, SpelledAs (.operand .amount) cut v →
      SpelledAs (.level .sums) cut v := by
    intro cut v h opened tokens rest htokens hroom
    obtain ⟨hoperand, hrest⟩ := h opened tokens rest htokens hroom
    exact ⟨.item (.item hoperand), hrest⟩
  induction h with
  | @cell c hwritten =>
    have hcell := spelledAs_operand (show Operand.Written (.cell c) from hwritten) .amount
    exact ⟨hladder hcell, hcell⟩
  | @literal value hwritten =>
    have hliteral := spelledAs_operand (show Operand.Written (.literal value) from hwritten) .amount
    exact ⟨hladder hliteral, hliteral⟩
  | binary hon hjoins _ _ ihleft ihright =>
    have hjoined := SpelledAs.joined hon hjoins ihleft.2 ihright.2
    exact ⟨hjoined, hjoined.brackets⟩

/-- A word of the grammar keeps to the limit on open brackets. -/
theorem Grammar.Derives.nestingFrom_le {symbol : Symbol} {opened : ℕ} {word : List Token}
    {phrase : Phrase} (h : Derives symbol opened word phrase) (rest : List Token) :
    nestingFrom opened (word ++ rest) ≤ max 64 (nestingFrom opened rest) := by
  -- a token that is no bracket leaves the count as it is
  have hsingle : ∀ {opened : ℕ} {t : Token} (rest : List Token), t.kind ≠ .openParen →
      t.kind ≠ .closeParen →
      nestingFrom opened ([t] ++ rest) ≤ max 64 (nestingFrom opened rest) := by
    intro opened t rest hopening hclosing
    rw [List.singleton_append, nestingFrom_other hopening hclosing]
    exact le_max_right _ _
  induction h generalizing rest with
  | item _ ih => exact ih rest
  | @join _ opened before after t op _ _ _ hjoins _ ihbefore ihafter =>
    have hfirst := ihbefore (t :: (after ++ rest))
    rw [nestingFrom_other hjoins.kind_ne.1 hjoins.kind_ne.2] at hfirst
    have hlast := ihafter rest
    rw [List.append_assoc, List.cons_append]
    omega
  | column hcolumn => exact hsingle rest (by simp [hcolumn.kind]) (by simp [hcolumn.kind])
  | number hkind _ => exact hsingle rest (by simp [hkind]) (by simp [hkind])
  | string hkind => exact hsingle rest (by simp [hkind]) (by simp [hkind])
  | nothing hkind => exact hsingle rest (by simp [hkind]) (by simp [hkind])
  | @brackets _ opened word _ o c hroom hopening _ hclosing ih =>
    have hinside := ih (c :: rest)
    rw [nestingFrom_closing hclosing] at hinside
    rw [List.cons_append, nestingFrom_opening hopening, List.append_assoc, List.singleton_append]
    omega

/-- **Tokens that carry the lexemes of an amount derive it if and only if no more than 64 brackets
are open at once** in them. -/
theorem BuiltFrom.derives_iff (h : BuiltFrom .amount v) {tokens : List Token}
    (htokens : Carries tokens v.pieces) {e : Token} (he : e.kind = .endOfInput) :
    Derives (.level .sums) 0 tokens v ↔ nesting (tokens ++ [e]) ≤ 64 := by
  constructor
  · intro hderives
    have hend : nestingFrom 0 [e] = 0 := nestingFrom_other (by simp [he]) (by simp [he]) 0 []
    have hle := hderives.nestingFrom_le [e]
    rwa [hend] at hle
  · intro hroom
    exact (h.spelledAs.1 0 tokens [e] htokens hroom).1

/-! ### The text of an amount behind a column -/

theorem content_scan (source : String) : content (scan source) = lexemes source := by
  have hkinds : ∀ t ∈ lexemes source, t.kind ≠ .endOfInput := by
    intro t ht
    simpa using (List.mem_filter.mp ht).2
  rw [scan_eq_lexemes_concat, content_append hkinds, content_cons_end rfl, List.append_nil]

/-- **The text of an amount parses back to it**, behind any column and an equals sign, if and only
if no more than 64 brackets are open in it at once. -/
theorem BuiltFrom.parse_assigning_iff (h : BuiltFrom .amount v)
    (hquotes : ∀ s ∈ v.texts, '"' ∉ s.toList) {c : Cell} (hc : c.Written) :
    parse (scan (c.display ++ " = " ++ v.source)) = .ok (.assignment c v) ↔
      nesting (scan v.source) ≤ 64 := by
  have hcut := h.cutInto_source hquotes [] ends_nil
  rw [List.append_nil, show Token.pieces [] = [] from rfl, List.append_nil] at hcut
  have hassign : Piece.Stable (.plain .assign ['=']) :=
    Piece.stable_sign (by decide) (by decide) (by decide) (by decide)
  have htext : (c.display ++ " = " ++ v.source).toList =
      c.piece.spelling ++ ' ' :: ('=' :: ' ' :: v.source.toList) := by simp
  have hpieces : Token.pieces (c.display ++ " = " ++ v.source).toList =
      c.piece :: .blank ' ' :: .plain .assign ['='] :: .blank ' ' :: v.pieces := by
    have hsign : Token.pieces ('=' :: ' ' :: v.source.toList) =
        .plain .assign ['='] :: Token.pieces (' ' :: v.source.toList) :=
      hassign.pieces_append (by simp [Piece.Breaks])
    rw [htext, hc.stable_piece.pieces_append (by simp [Piece.Breaks]), pieces_blank, hsign,
      pieces_blank, hcut]
  have hwhole := carries_lexemes (c.display ++ " = " ++ v.source)
  rw [hpieces] at hwhole
  obtain ⟨t, rest, hlexemes, ht, hrest⟩ := hwhole.exists_cons rfl
  obtain ⟨a, word, rfl, ha, hword⟩ := hrest.of_blank.exists_cons rfl
  -- the amount has the same tokens alone and behind the column
  have halone := carries_lexemes v.source
  rw [hcut] at halone
  have hnesting : ∀ e : Token, e.kind = .endOfInput →
      nesting (scan v.source) = nesting (word ++ [e]) := by
    intro e he
    refine nestingFrom_congr ?_ 0
    rw [scan_eq_lexemes_concat, List.map_append, List.map_append, hword.of_blank.map_kind_eq halone]
    simp [he]
  have hend : (⟨.endOfInput, "", 1, 0⟩ : Token).kind = .endOfInput := rfl
  rw [parse_eq_ok_iff, content_scan, hlexemes, hnesting _ hend,
    ← h.derives_iff hword.of_blank hend]
  constructor
  · intro hspells
    generalize hrow : t :: a :: word = row at hspells
    cases hspells with
    | assignment hassigns =>
      rw [← hrow] at hassigns
      obtain ⟨-, -, hamount⟩ := hassigns
      exact hamount
  · intro hamount
    exact .assignment (.intro (hc.isColumn ht) (kind_of_mark? ha) hamount)

/-! ### What may stand as an amount -/

/-- The values that a phrase assigns. -/
def amounts : Phrase → List Phrase
  | .assignment _ value => [value]
  | phrase => phrase.assigned.map Prod.snd

theorem Grammar.Assigns.exists_derives {word : List Token} {target : Cell} {value : Phrase}
    (h : Assigns word target value) : ∃ amount, Derives (.level .sums) 0 amount value := by
  obtain ⟨-, -, hamount⟩ := h
  exact ⟨_, hamount⟩

/-- What a rule assigns comes from the ladder of amounts. -/
theorem Grammar.Spells.exists_derives_of_mem {word : List Token} {phrase : Phrase}
    (h : Spells word phrase) (hv : v ∈ phrase.amounts) :
    ∃ amount, Derives (.level .sums) 0 amount v := by
  cases h with
  | conditional _ _ _ hassigns =>
    obtain rfl : v = _ := by simpa [amounts, assigned] using hv
    exact hassigns.exists_derives
  | conditionalElse _ _ _ hassigns _ hother =>
    obtain rfl | rfl : v = _ ∨ v = _ := by simpa [amounts, assigned] using hv
    · exact hassigns.exists_derives
    · exact hother.exists_derives
  | assignment hassigns =>
    obtain rfl : v = _ := by simpa [amounts] using hv
    exact hassigns.exists_derives
  | comparison => simp [amounts, assigned] at hv

/-- A phrase of the grammar is built from what tokens spell, if none of its numbers is negative. -/
theorem Grammar.Derives.builtFrom_of_numbers {symbol : Symbol} {opened : ℕ} {word : List Token}
    {phrase : Phrase} (h : Derives symbol opened word phrase)
    (hnumbers : ∀ x ∈ phrase.numbers, x.negative = false) : BuiltFrom symbol.ladder phrase := by
  induction h with
  | @item level _ _ _ _ ih =>
    have hitem := ih hnumbers
    rwa [level.ladder_item] at hitem
  | @join level _ _ _ _ _ _ _ _ hjoins _ ihleft ihright =>
    simp only [numbers, literals, List.filterMap_append, List.forall_mem_append] at hnumbers
    have hright := ihright hnumbers.2
    rw [level.ladder_item] at hright
    exact .binary rfl hjoins (ihleft hnumbers.1) hright
  | column hcolumn => exact .cell (Cell.written_of_decode? hcolumn.decoded)
  | number => exact .literal (hnumbers _ (by simp [numbers, literals, Value.number?]))
  | string => exact .literal trivial
  | nothing => exact .literal trivial
  | @brackets inside _ _ _ _ _ _ _ _ _ ih =>
    have hinside := ih hnumbers
    rwa [show (Symbol.level inside.top).ladder = inside from inside.ladder_top] at hinside

theorem BuiltFrom.negative_of_mem_numbers (h : BuiltFrom ladder v) :
    ∀ x ∈ v.numbers, x.negative = false := by
  induction h with
  | cell => simp [numbers, literals]
  | @literal value hwritten =>
    cases value with
    | number x =>
      have hpositive : x.negative = false := hwritten
      simpa [numbers, literals, Value.number?] using hpositive
    | _ => simp [numbers, literals, Value.number?]
  | binary _ _ _ _ ihleft ihright =>
    simp only [numbers, literals, List.filterMap_append, List.forall_mem_append]
    exact ⟨ihleft, ihright⟩

/-- What a source assigns is an amount. -/
theorem FromSource.builtFrom_of_mem {phrase : Phrase} (h : FromSource phrase)
    (hv : v ∈ phrase.amounts) : BuiltFrom .amount v := by
  cases h with
  | conditional _ _ hamount =>
    obtain rfl : v = _ := by simpa [amounts, assigned] using hv
    exact hamount
  | conditionalElse _ _ hamount _ hother =>
    obtain rfl | rfl : v = _ ∨ v = _ := by simpa [amounts, assigned] using hv
    · exact hamount
    · exact hother
  | assignment _ hamount =>
    obtain rfl : v = _ := by simpa [amounts] using hv
    exact hamount
  | comparison => simp [amounts, assigned] at hv

/-- **The text of an amount reads back.** Let a source assign an operation, alone or in a branch, in
which no text literal holds a double quote. Behind `гр10102212 = ` its text parses to the assignment
of that same operation if and only if no more than 64 brackets are open in the text at once. Tokens
that were not scanned may spell negative numbers, and for them there is one more condition: none of
the numbers is negative. -/
theorem source_reads_back :
    (∀ (source : String) (phrase v : Phrase), parse (scan source) = .ok phrase →
      v ∈ phrase.amounts → v.isBinary = true → (∀ s ∈ v.texts, '"' ∉ s.toList) →
      (parse (scan ("гр10102212 = " ++ v.source)) =
          .ok (.assignment ⟨"10102", 2, 12, "10102212"⟩ v) ↔
        nesting (scan v.source) ≤ 64)) ∧
    ∀ (tokens : List Token) (phrase v : Phrase), parse tokens = .ok phrase →
      v ∈ phrase.amounts → v.isBinary = true → (∀ s ∈ v.texts, '"' ∉ s.toList) →
      (parse (scan ("гр10102212 = " ++ v.source)) =
          .ok (.assignment ⟨"10102", 2, 12, "10102212"⟩ v) ↔
        nesting (scan v.source) ≤ 64 ∧ ∀ x ∈ v.numbers, x.negative = false) := by
  have hbehind : ∀ {v : Phrase}, BuiltFrom .amount v → (∀ s ∈ v.texts, '"' ∉ s.toList) →
      (parse (scan ("гр10102212 = " ++ v.source)) =
          .ok (.assignment ⟨"10102", 2, 12, "10102212"⟩ v) ↔
        nesting (scan v.source) ≤ 64) := by
    intro v hbuilt hquotes
    have hcolumn : Cell.ofDigits? "10102212".toList = some ⟨"10102", 2, 12, "10102212"⟩ := by
      decide +kernel
    have htext : Cell.display ⟨"10102", 2, 12, "10102212"⟩ ++ " = " = "гр10102212 = " := by
      decide +kernel
    have hiff := hbuilt.parse_assigning_iff hquotes (c := ⟨"10102", 2, 12, "10102212"⟩) hcolumn
    rwa [htext] at hiff
  constructor
  · intro source phrase v hparse hv _ hquotes
    exact hbehind ((fromSource_of_parse hparse).builtFrom_of_mem hv) hquotes
  · intro tokens phrase v hparse hv _ hquotes
    obtain ⟨word, hamount⟩ := (parse_eq_ok_iff.mp hparse).exists_derives_of_mem hv
    constructor
    · intro hback
      have hbuilt : BuiltFrom .amount v :=
        (fromSource_of_parse hback).builtFrom_of_mem List.mem_cons_self
      exact ⟨(hbehind hbuilt hquotes).mp hback, hbuilt.negative_of_mem_numbers⟩
    · rintro ⟨hroom, hnumbers⟩
      exact (hbehind (hamount.builtFrom_of_numbers hnumbers) hquotes).mpr hroom

/-- A source that assigns an operation with brackets, and with other spellings of its operands. -/
def mixedOperation : String :=
  "если гр10102212 == 1 то ГР101022006 = ('(' - гр10102209) * (1.50 + (пусто / гР1010220007))"

/-- The text of that operation behind a column is parsed to it. -/
theorem source_reads_back_mixedOperation :
    ∃ phrase v, parse (scan mixedOperation) = .ok phrase ∧ v ∈ phrase.amounts ∧
      v.source = "(\"(\" - гр10102209) * (1.5 + (пусто / гр1010220007))" ∧
      v.isBinary = true ∧ (∀ s ∈ v.texts, '"' ∉ s.toList) ∧ nesting (scan v.source) = 2 ∧
      parse (scan ("гр10102212 = " ++ v.source)) =
        .ok (.assignment ⟨"10102", 2, 12, "10102212"⟩ v) := by
  have hparse : parse (scan mixedOperation) = .ok (.conditional
      (.binary (.cell ⟨"10102", 2, 12, "10102212"⟩) .eq
        (.literal (.number ⟨false, 4607182418800017408, by decide⟩)))
      ⟨"10102", 2, 6, "101022006"⟩
      (.binary
        (.binary (.literal (.text "(")) .sub (.cell ⟨"10102", 2, 9, "10102209"⟩)) .mul
        (.binary (.literal (.number ⟨false, 4609434218613702656, by decide⟩)) .add
          (.binary (.literal .null) .div (.cell ⟨"10102", 2, 7, "1010220007"⟩))))) := by
    decide +kernel
  refine ⟨_, _, hparse, List.mem_cons_self, by decide +kernel, rfl, by decide +kernel,
    by decide +kernel, ?_⟩
  exact (source_reads_back.1 _ _ _ hparse List.mem_cons_self rfl (by decide +kernel)).mpr
    (by decide +kernel)

end Phrase

end RegisterRules
