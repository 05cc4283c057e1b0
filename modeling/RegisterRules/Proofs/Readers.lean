import RegisterRules.Proofs.Address

/-!
# The readers of the scanner

In front of a text that is not blank one of five readers takes over. The mark of a column reference
comes first, then the first character decides. A token is the work of the reader that took over at
its place.

Only one of the readers makes column references, and three questions find its work: which reader
took over, whether a token is a name that starts with the mark, and whether its text is decoded. The
first two have the same answer. A word is read where no mark stands, and its first two characters
are those of the text, so it does not start with a mark either. The third has a narrower answer, by
the number of digits and the size of the column alone.

## Main definitions

* `Token.Piece.Reader`, `Token.Piece.Reads`: the readers, when they take over and what they make.
* `Token.ReadBy`: a token is the work of a reader.

## Main results

* `Token.Piece.reads_next`, `Token.Piece.Reads.eq_next`: the first piece is the work of a reader.
* `Token.exists_next_at`: every token was read at its place.
* `Token.isCell_iff_readBy`: scanner, tokens and decoding agree on column references.
-/

namespace RegisterRules

namespace Token

namespace Piece

/-! ### Who reads what -/

/-- A reader of lexemes. -/
inductive Reader where
  | cell | number | word | string | sign
deriving DecidableEq

/-- A reader takes over in front of a text that is not blank, given by its first character and the
rest, and splits it into a piece and what follows. -/
inductive Reads : Reader → Char → List Char → Piece × List Char → Prop
  | cell {c d : Char} {more : List Char} (mark : Cell.isMark c d = true) :
      Reads .cell c (d :: more) (Piece.cell c d more)
  | number {c : Char} {rest : List Char} (unmarked : Cell.isMarked (c :: rest) = false)
      (digit : c.isDigit = true) : Reads .number c rest (Piece.number c rest)
  | word {c : Char} {rest : List Char} (unmarked : Cell.isMarked (c :: rest) = false)
      (notDigit : c.isDigit = false) (letter : Text.isAlphabetic c = true) :
      Reads .word c rest (Piece.word c rest)
  | string {c : Char} {rest : List Char} (unmarked : Cell.isMarked (c :: rest) = false)
      (notDigit : c.isDigit = false) (notLetter : Text.isAlphabetic c = false)
      (quote : c = '"' ∨ c = '\'') : Reads .string c rest (Piece.string c rest)
  | sign {c : Char} {rest : List Char} (unmarked : Cell.isMarked (c :: rest) = false)
      (notDigit : c.isDigit = false) (notLetter : Text.isAlphabetic c = false)
      (notQuote : ¬ (c = '"' ∨ c = '\'')) : Reads .sign c rest (Piece.sign c rest)

variable {c : Char} {rest : List Char} {reader : Reader}

theorem isMark_head?_of_unmarked (h : Cell.isMarked (c :: rest) = false) :
    ∀ d ∈ rest.head?, Cell.isMark c d = false := by
  rintro d hd
  obtain ⟨more, rfl⟩ := List.head?_eq_some_iff.mp hd
  exact h

/-- The first piece of a text that is not blank is the work of a reader. -/
theorem reads_next (hblank : Text.isBlank c = false) (rest : List Char) :
    ∃ reader, Reads reader c rest (next c rest) := by
  by_cases hmark : Cell.isMarked (c :: rest) = true
  · rcases rest with - | ⟨d, more⟩
    · cases hmark
    · refine ⟨.cell, ?_⟩
      rw [next, if_neg (by simp [hblank]), if_pos (show Cell.isMark c d = true from hmark)]
      exact .cell hmark
  rw [Bool.not_eq_true] at hmark
  rw [next_eq_other hblank (isMark_head?_of_unmarked hmark), other]
  split
  · next hdigit => exact ⟨.number, .number hmark hdigit⟩
  next hdigit =>
  rw [Bool.not_eq_true] at hdigit
  split
  · next hletter => exact ⟨.word, .word hmark hdigit hletter⟩
  next hletter =>
  rw [Bool.not_eq_true] at hletter
  split
  · next hquote => exact ⟨.string, .string hmark hdigit hletter hquote⟩
  · next hquote => exact ⟨.sign, .sign hmark hdigit hletter hquote⟩

/-- What a reader makes of a text is its first piece and the rest. -/
theorem Reads.eq_next {out : Piece × List Char} (h : Reads reader c rest out)
    (hblank : Text.isBlank c = false) : next c rest = out := by
  have hother : Cell.isMarked (c :: rest) = false → next c rest = other c rest := fun hmark =>
    next_eq_other hblank (isMark_head?_of_unmarked hmark)
  cases h with
  | cell hmark => rw [next, if_neg (by simp [hblank]), if_pos hmark]
  | number hmark hdigit => rw [hother hmark, other, if_pos hdigit]
  | word hmark hdigit hletter =>
    rw [hother hmark, other, if_neg (by simp [hdigit]), if_pos hletter]
  | string hmark hdigit hletter hquote =>
    rw [hother hmark, other, if_neg (by simp [hdigit]), if_neg (by simp [hletter]), if_pos hquote]
  | sign hmark hdigit hletter hquote =>
    rw [hother hmark, other, if_neg (by simp [hdigit]), if_neg (by simp [hletter]), if_neg hquote]

/-- Two readers never take over in front of the same text. -/
theorem Reads.reader_unique {reader' : Reader} {out out' : Piece × List Char}
    (h : Reads reader c rest out) (h' : Reads reader' c rest out') : reader = reader' := by
  cases h <;> cases h' <;> simp_all [Cell.isMarked]

/-- A name is a column reference or a word. -/
theorem Reads.cell_or_word {text spelling after : List Char}
    (h : Reads reader c rest (.lexeme .identifier text spelling, after)) :
    reader = .cell ∨ (reader = .word ∧ Cell.isMarked (c :: rest) = false ∧
      text = c :: rest.takeWhile isWordPart) := by
  generalize hout : (Piece.lexeme .identifier text spelling, after) = out at h
  cases h with
  | cell => exact .inl rfl
  | number =>
    rw [Piece.number] at hout
    split at hout <;> cases hout
  | word hmark => exact .inr ⟨rfl, hmark, (Piece.lexeme.inj (Prod.mk.inj hout).1).2.1⟩
  | string =>
    rw [Piece.string] at hout
    split at hout <;> cases hout
  | sign =>
    exact absurd (kind_mem_of_sign (congrArg Prod.fst hout).symm) (by decide)

/-- A word starts with the mark only if the text does. -/
theorem isMarked_of_isMarked_word (h : Cell.isMarked (c :: rest.takeWhile isWordPart) = true) :
    Cell.isMarked (c :: rest) = true := by
  rcases rest with - | ⟨d, more⟩
  · cases h
  · by_cases hd : isWordPart d = true
    · rw [List.takeWhile_cons_of_pos hd] at h
      exact h
    · rw [List.takeWhile_cons_of_neg hd] at h
      cases h

end Piece

/-! ### Tokens and their readers -/

/-- Step by step: every token but the end of input was read at its place. -/
theorem exists_next_at {room line : ℕ} (before : List Char) {text : List Char} {t : Token}
    (h : t ∈ place line before.length (piecesWithin room text)) (hkind : t.kind ≠ .endOfInput) :
    ∃ front c rest spelling after, before ++ text = front ++ c :: rest ∧
      front.length = t.offset ∧
      Piece.next c rest = (.lexeme t.kind t.text.toList spelling, after) := by
  have hend : ∀ line offset, t ∉ place line offset [] := by
    intro line offset hmem
    rw [place, List.mem_singleton] at hmem
    exact hkind (by rw [hmem])
  induction room generalizing before text line with
  | zero => exact absurd h (hend _ _)
  | succ room ih =>
    rcases text with - | ⟨c, tail⟩
    · exact absurd h (hend _ _)
    have hsplit := Piece.spelling_append_next c tail
    rcases hnext : Piece.next c tail with ⟨piece, rest⟩
    rw [hnext] at hsplit
    rw [piecesWithin, hnext] at h
    -- what is left starts behind the piece
    have hlater : t ∈ place (line + piece.spelling.count '\n')
        (before.length + piece.spelling.length) (piecesWithin room rest) →
        ∃ front c' rest' spelling after, before ++ c :: tail = front ++ c' :: rest' ∧
          front.length = t.offset ∧
          Piece.next c' rest' = (.lexeme t.kind t.text.toList spelling, after) := by
      intro hmem
      rw [← List.length_append] at hmem
      obtain ⟨front, c', rest', spelling, after, hsource, hread⟩ := ih _ hmem
      refine ⟨front, c', rest', spelling, after, ?_, hread⟩
      rw [← hsource, List.append_assoc, hsplit]
    cases piece with
    | blank d => exact hlater h
    | lexeme kind text spelling =>
      rw [place, List.mem_cons] at h
      rcases h with rfl | h
      · exact ⟨before, c, tail, spelling, rest, rfl, rfl, by rw [hnext, String.toList_ofList]⟩
      · exact hlater h

/-- A token is the work of a reader: where it stands, that reader took over and made it. -/
def ReadBy (source : List Char) (reader : Piece.Reader) (t : Token) : Prop :=
  ∃ before c rest spelling after, source = before ++ c :: rest ∧ before.length = t.offset ∧
    Text.isBlank c = false ∧
    Piece.Reads reader c rest (.lexeme t.kind t.text.toList spelling, after)

variable {source : String} {t : Token}

theorem exists_readBy (h : t ∈ scan source) (hkind : t.kind ≠ .endOfInput) :
    ∃ reader, ReadBy source.toList reader t := by
  obtain ⟨front, c, rest, spelling, after, hsource, hoffset, hnext⟩ :=
    exists_next_at [] h hkind
  have hblank : Text.isBlank c = false := by
    rw [← Bool.not_eq_true]
    intro hblank
    rw [Piece.next.eq_def, if_pos hblank] at hnext
    cases hnext
  obtain ⟨reader, hreads⟩ := Piece.reads_next hblank rest
  rw [hnext] at hreads
  exact ⟨reader, front, c, rest, spelling, after, hsource, hoffset, hblank, hreads⟩

theorem ReadBy.reader_unique {source : List Char} {reader reader' : Piece.Reader}
    (h : ReadBy source reader t) (h' : ReadBy source reader' t) : reader = reader' := by
  obtain ⟨before, c, rest, spelling, after, hsource, hoffset, -, hreads⟩ := h
  obtain ⟨before', c', rest', spelling', after', hsource', hoffset', -, hreads'⟩ := h'
  obtain ⟨-, htext⟩ := List.append_inj (hsource.symm.trans hsource')
    (hoffset.trans hoffset'.symm)
  obtain ⟨rfl, rfl⟩ := List.cons.inj htext
  exact hreads.reader_unique hreads'

/-- What the reader of column references makes: the mark, and all digits behind it. -/
theorem ReadBy.cell_text {source : List Char} (h : ReadBy source .cell t) :
    t.kind = .identifier ∧ ∃ first second digits, t.text.toList = first :: second :: digits ∧
      Cell.isMark first second = true ∧ (∀ d ∈ digits, d.isDigit = true) ∧
      ∀ d, source[t.offset + t.text.length]? = some d → d.isDigit = false := by
  obtain ⟨before, c, rest, spelling, after, hsource, hoffset, hblank, hreads⟩ := h
  have hsplit := Piece.spelling_append_next c rest
  rw [hreads.eq_next hblank] at hsplit
  generalize hout : (Piece.lexeme t.kind t.text.toList spelling, after) = out at hreads
  cases hreads with
  | @cell _ d more hmark =>
    obtain ⟨hpiece, rfl⟩ := Prod.mk.inj hout
    obtain ⟨hkind, htext, rfl⟩ := Piece.lexeme.inj hpiece
    refine ⟨hkind, c, d, more.takeWhile Char.isDigit, htext, hmark,
      fun e he => List.mem_takeWhile_imp he, fun e he => ?_⟩
    -- behind the text stands what the reader left, and that starts with no digit
    have hrest : source[t.offset + t.text.length]? = (more.dropWhile Char.isDigit).head? := by
      rw [hsource, ← hsplit, ← hoffset, ← List.append_assoc, Piece.spelling, ← htext,
        ← String.length_toList, ← List.length_append, List.getElem?_append_right (Nat.le_refl _),
        Nat.sub_self, List.head?_eq_getElem?]
    rw [hrest] at he
    have hstop := List.head?_dropWhile_not Char.isDigit more
    rw [he] at hstop
    exact hstop

/-- A token starts with the mark of a column reference if and only if the reader of column
references made it. -/
theorem isCell_iff (h : t ∈ scan source) : t.isCell = true ↔ ReadBy source.toList .cell t := by
  constructor
  · intro hcell
    rw [isCell, Bool.and_eq_true, beq_iff_eq] at hcell
    obtain ⟨hkind, hmark⟩ := hcell
    obtain ⟨reader, hread⟩ := exists_readBy h (by simp [hkind])
    have hreads := hread
    obtain ⟨-, c, rest, spelling, after, -, -, -, hreads⟩ := hreads
    rw [hkind] at hreads
    rcases hreads.cell_or_word with rfl | ⟨-, hunmarked, htext⟩
    · exact hread
    · rw [htext] at hmark
      rw [Piece.isMarked_of_isMarked_word hmark] at hunmarked
      cases hunmarked
  · intro hread
    obtain ⟨hkind, first, second, digits, htext, hmark, -⟩ := hread.cell_text
    rw [isCell, hkind, htext]
    exact hmark

/-- **Scanner, tokens and decoding agree on column references.**

Every token of a source but the end of input is the work of exactly one reader. It is a name that
starts with the mark if and only if the reader of column references made it. Then it is the mark,
in small or capital letters, with all digits that stand behind it in the source; and its text is
decoded unless there are fewer than eight digits or the column is not below `2 ^ 32`. The text of no
other name is decoded. -/
theorem isCell_iff_readBy {source : String} {t : Token} (h : t ∈ scan source) :
    (t.kind ≠ .endOfInput → ∃! reader, ReadBy source.toList reader t) ∧
    (t.isCell = true ↔ ReadBy source.toList .cell t) ∧
    (t.isCell = true →
      ∃ first second digits, t.text.toList = first :: second :: digits ∧
        ((first = 'г' ∨ first = 'Г') ∧ (second = 'р' ∨ second = 'Р')) ∧
        (∀ d ∈ digits, d.isDigit = true) ∧
        (∀ d, source.toList[t.offset + t.text.length]? = some d → d.isDigit = false) ∧
        (Cell.decode? t.text = none ↔
          digits.length < 8 ∨ 2 ^ 32 ≤ Nat.ofDigitChars 10 (digits.drop 6) 0)) ∧
    (t.kind = .identifier → t.isCell = false → Cell.decode? t.text = none) := by
  refine ⟨fun hkind => ?_, isCell_iff h, fun hcell => ?_, fun hkind hcell => ?_⟩
  · obtain ⟨reader, hread⟩ := exists_readBy h hkind
    exact ⟨reader, hread, fun reader' hread' => hread'.reader_unique hread⟩
  · obtain ⟨-, first, second, digits, htext, hmark, hdigits, hstop⟩ :=
      ((isCell_iff h).mp hcell).cell_text
    exact ⟨first, second, digits, htext, Cell.isMark_iff.mp hmark, hdigits, hstop,
      Cell.decode?_eq_none_iff htext hmark hdigits⟩
  · rw [isCell, hkind] at hcell
    rw [Cell.decode?, if_neg]
    simpa using hcell

/-- The first two letters of a word that starts with the mark are a reference without digits. -/
theorem isCell_iff_readBy_noDigits :
    (⟨.identifier, "ГР", 1, 0⟩ : Token) ∈ scan "ГРуппа" ∧
    ReadBy "ГРуппа".toList .cell ⟨.identifier, "ГР", 1, 0⟩ ∧
    Cell.decode? "ГР" = none ∧
    (⟨.identifier, "уппа", 1, 2⟩ : Token) ∈ scan "ГРуппа" ∧
    ¬ ReadBy "ГРуппа".toList .cell ⟨.identifier, "уппа", 1, 2⟩ := by
  have hmark : (⟨.identifier, "ГР", 1, 0⟩ : Token) ∈ scan "ГРуппа" := by decide +kernel
  have hword : (⟨.identifier, "уппа", 1, 2⟩ : Token) ∈ scan "ГРуппа" := by decide +kernel
  obtain ⟨-, hread, htext, -⟩ := isCell_iff_readBy hmark
  obtain ⟨first, second, digits, hspelled, -, -, -, hnone⟩ := htext (by decide +kernel)
  obtain ⟨-, hread', -⟩ := isCell_iff_readBy hword
  refine ⟨hmark, hread.mp (by decide +kernel), hnone.mpr (.inl ?_), hword, ?_⟩
  · have hlength := congrArg List.length hspelled
    change 2 = digits.length + 2 at hlength
    omega
  · rw [← hread']
    decide +kernel

end Token

end RegisterRules
