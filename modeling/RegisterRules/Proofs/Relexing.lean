import RegisterRules.Proofs.NumberText
import RegisterRules.Proofs.Spans

/-!
# Lexemes with blanks between them

A lexeme that is cut out of a text and put between blanks is the same lexeme again. What the scanner
makes of it depends on the characters behind it only as far as they could go on with it, and a blank
goes on with nothing.

So a text that is put together from such lexemes, with a blank in front of each, has just these
lexemes. Their places are lost, and with them all that scanning adds to a lexeme: a token is a
lexeme with a place, and its `mark` is what it is without the place.

## Main definitions

* `Token.Piece.Stable`: a piece that is the same in front of a blank.
* `Token.mark`, `Token.Piece.mark?`: kind and text of a token and of a piece.
* `Token.spaced`: lexemes with a blank in front of each.
* `Token.Carries`: tokens of some lexemes.

## Main results

* `Token.Piece.stable_word`, `stable_number`, `stable_cell`, `stable_string`, `stable_sign`,
  `stable_pair`: the stable pieces.
* `Token.map_mark_scan`: the tokens of a source are those of its pieces.
* `Token.exists_carries_scan`: the tokens of stable pieces with blanks between them.
-/

namespace RegisterRules

namespace Token

namespace Piece

/-! ### Stable pieces -/

/-- A text that goes on with no lexeme: it is over, or it starts with a blank. -/
def Breaks (rest : List Char) : Prop := ∀ d ∈ rest.head?, d = ' '

/-- A piece that is read from its spelling wherever a blank or the end follows. -/
def Stable (piece : Piece) : Prop :=
  ∃ c cs, piece.spelling = c :: cs ∧ ∀ rest, Breaks rest → next c (cs ++ rest) = (piece, rest)

@[simp] theorem spelling_plain (kind : Kind) (spelling : List Char) :
    (plain kind spelling).spelling = spelling := rfl

/-- A text that does not start with a mark is read by its first character. -/
theorem next_eq_other {c : Char} {rest : List Char} (hblank : Text.isBlank c = false)
    (hmark : ∀ d ∈ rest.head?, Cell.isMark c d = false) : next c rest = other c rest := by
  rw [next.eq_def, if_neg (by simp [hblank])]
  cases rest with
  | nil => rfl
  | cons d more => simp [hmark d rfl]

theorem isMark_of_lower_ne {c d : Char} (h : Text.lower d ≠ 'р') : Cell.isMark c d = false := by
  simp [Cell.isMark, h]

theorem isMark_eq_false {c d : Char} (h : Text.lower c ≠ 'г') : Cell.isMark c d = false := by
  simp [Cell.isMark, h]

theorem Breaks.stop {p : Char → Bool} {rest : List Char} (h : Breaks rest) (hp : p ' ' = false) :
    ∀ c ∈ rest.head?, p c = false := by
  intro c hc
  rw [h c hc, hp]

theorem stable_word {c : Char} {cs : List Char} (hblank : Text.isBlank c = false)
    (hdigit : c.isDigit = false) (hletter : Text.isAlphabetic c = true)
    (hmark : Cell.isMarked (c :: cs) = false) (hparts : ∀ d ∈ cs, isWordPart d = true) :
    Stable (plain ((Kind.keyword? (String.ofList ((c :: cs).map Text.lower))).getD .identifier)
      (c :: cs)) := by
  refine ⟨c, cs, rfl, fun rest hrest => ?_⟩
  have hsecond : ∀ d ∈ (cs ++ rest).head?, Cell.isMark c d = false := by
    intro d hd
    rcases cs with - | ⟨e, cs⟩
    · rw [hrest d hd]
      exact isMark_of_lower_ne (by decide)
    · obtain rfl : e = d := by simpa using hd
      exact hmark
  rw [next_eq_other hblank hsecond, other, if_neg (by simp [hdigit]), if_pos hletter, word,
    Text.takeWhile_append_stop hparts (hrest.stop (by decide)),
    Text.dropWhile_append_stop hparts (hrest.stop (by decide))]

/-- A keyword in small letters. -/
theorem stable_keyword {word : String} {kind : Kind} (h : (word, kind) ∈ Kind.keywords) :
    Stable (plain kind word.toList) := by
  have hall : Kind.keywords.all (fun entry =>
      entry.1.toList.head?.any (fun c => !Text.isBlank c && !c.isDigit && Text.isAlphabetic c) &&
        !Cell.isMarked entry.1.toList && entry.1.toList.tail.all isWordPart &&
        (Kind.keyword? (String.ofList (entry.1.toList.map Text.lower))).getD .identifier ==
          entry.2) = true := by decide +kernel
  have hentry := List.all_eq_true.mp hall _ h
  dsimp only at hentry
  rcases hspelling : word.toList with - | ⟨c, cs⟩
  · simp [hspelling] at hentry
  simp only [hspelling, List.head?_cons, Option.any_some, List.tail_cons, Bool.and_eq_true,
    Bool.not_eq_true', beq_iff_eq] at hentry
  obtain ⟨⟨⟨⟨⟨hblank, hdigit⟩, hletter⟩, hmark⟩, hparts⟩, hkind⟩ := hentry
  have hword := stable_word hblank hdigit hletter hmark (List.all_eq_true.mp hparts)
  rwa [hkind] at hword

theorem toNat_of_isDigit {c : Char} (h : c.isDigit = true) : 48 ≤ c.toNat ∧ c.toNat ≤ 57 := by
  rw [Char.isDigit, Bool.and_eq_true, decide_eq_true_eq, decide_eq_true_eq] at h
  exact h

theorem lower_of_isDigit {c : Char} (h : c.isDigit = true) : Text.lower c = c := by
  have hrange := toNat_of_isDigit h
  rw [Text.lower, if_neg (by omega)]

theorem isBlank_of_isDigit {c : Char} (h : c.isDigit = true) : Text.isBlank c = false := by
  have hnone : ∀ n < 58, 48 ≤ n → Text.blankRanges.covers n = false := by decide
  have hrange := toNat_of_isDigit h
  exact hnone _ (by omega) hrange.1

/-- A text that starts with a digit is read as a number. -/
theorem next_of_isDigit {c : Char} (h : c.isDigit = true) (rest : List Char) :
    next c rest = number c rest := by
  have hmark : ∀ d ∈ rest.head?, Cell.isMark c d = false := by
    intro d _
    refine isMark_eq_false ?_
    rw [lower_of_isDigit h]
    rintro rfl
    cases h
  rw [next_eq_other (isBlank_of_isDigit h) hmark, other, if_pos h]

/-- A number without a point. -/
theorem stable_digits {digits : List Char} (hne : digits ≠ [])
    (hdigits : ∀ c ∈ digits, c.isDigit = true) : Stable (plain .number digits) := by
  obtain ⟨c, cs, rfl⟩ := List.exists_cons_of_ne_nil hne
  obtain ⟨hc, hcs⟩ := List.forall_mem_cons.mp hdigits
  refine ⟨c, cs, rfl, fun rest hrest => ?_⟩
  rw [next_of_isDigit hc, number, Text.takeWhile_append_stop hcs (hrest.stop (by decide)),
    Text.dropWhile_append_stop hcs (hrest.stop (by decide))]
  rcases rest with - | ⟨d, rest⟩
  · rfl
  · obtain rfl := hrest d rfl
    rfl

/-- A number with a point among its digits or behind them. -/
theorem stable_point {whole fraction : List Char} (hne : whole ≠ [])
    (hwhole : ∀ c ∈ whole, c.isDigit = true) (hfraction : ∀ c ∈ fraction, c.isDigit = true) :
    Stable (plain .number (whole ++ '.' :: fraction)) := by
  obtain ⟨c, cs, rfl⟩ := List.exists_cons_of_ne_nil hne
  obtain ⟨hc, hcs⟩ := List.forall_mem_cons.mp hwhole
  refine ⟨c, cs ++ '.' :: fraction, rfl, fun rest hrest => ?_⟩
  have htake : (cs ++ '.' :: (fraction ++ rest)).takeWhile Char.isDigit = cs :=
    Text.takeWhile_append_stop hcs (by simp)
  have hdrop : (cs ++ '.' :: (fraction ++ rest)).dropWhile Char.isDigit =
      '.' :: (fraction ++ rest) := Text.dropWhile_append_stop hcs (by simp)
  rw [next_of_isDigit hc, number, List.append_assoc, List.cons_append]
  simp only [htake, hdrop]
  rw [Text.takeWhile_append_stop hfraction (hrest.stop (by decide)),
    Text.dropWhile_append_stop hfraction (hrest.stop (by decide))]

theorem stable_number {whole fraction : List Char} (hne : whole ≠ [])
    (hwhole : ∀ c ∈ whole, c.isDigit = true) (hfraction : ∀ c ∈ fraction, c.isDigit = true) :
    Stable (plain .number (Number.pointed whole fraction)) := by
  rw [Number.pointed]
  split
  · rw [List.append_nil]
    exact stable_digits hne hwhole
  · exact stable_point hne hwhole hfraction

theorem stable_cell {c d : Char} {digits : List Char} (hblank : Text.isBlank c = false)
    (hmark : Cell.isMark c d = true) (hdigits : ∀ e ∈ digits, e.isDigit = true) :
    Stable (plain .identifier (c :: d :: digits)) := by
  refine ⟨c, d :: digits, rfl, fun rest hrest => ?_⟩
  rw [List.cons_append, next, if_neg (by simp [hblank]), if_pos hmark, cell,
    Text.takeWhile_append_stop hdigits (hrest.stop (by decide)),
    Text.dropWhile_append_stop hdigits (hrest.stop (by decide))]

/-- The characters that start a string or stand for themselves. -/
theorem next_of_not_isAlphabetic {c : Char} {rest : List Char} (hblank : Text.isBlank c = false)
    (hdigit : c.isDigit = false) (hletter : Text.isAlphabetic c = false)
    (hmark : ∀ d ∈ rest.head?, Cell.isMark c d = false) :
    next c rest = if c = '"' ∨ c = '\'' then string c rest else sign c rest := by
  rw [next_eq_other hblank hmark, other, if_neg (by simp [hdigit]), if_neg (by simp [hletter])]

/-- A string ends at the first quote of its kind. -/
theorem string_closed {quote : Char} {text : List Char} (hfree : quote ∉ text)
    (rest : List Char) :
    string quote (text ++ quote :: rest) =
      (.lexeme .string text (quote :: (text ++ [quote])), rest) := by
  have htext : ∀ c ∈ text, (decide (c ≠ quote)) = true := by
    intro c hc
    rw [decide_eq_true_eq]
    rintro rfl
    exact hfree hc
  rw [string, Text.takeWhile_append_stop htext (by simp),
    Text.dropWhile_append_stop htext (by simp)]

theorem stable_string {quote : Char} {text : List Char} (hquote : quote = '"' ∨ quote = '\'')
    (hfree : quote ∉ text) : Stable (.lexeme .string text (quote :: (text ++ [quote]))) := by
  have hchar : Text.isBlank quote = false ∧ quote.isDigit = false ∧
      Text.isAlphabetic quote = false ∧ Text.lower quote ≠ 'г' := by
    rcases hquote with rfl | rfl
    · decide
    · decide
  obtain ⟨hblank, hdigit, hletter, hlower⟩ := hchar
  refine ⟨quote, text ++ [quote], rfl, fun rest _ => ?_⟩
  rw [next_of_not_isAlphabetic hblank hdigit hletter fun d _ => isMark_eq_false hlower,
    if_pos hquote, List.append_assoc, List.singleton_append, string_closed hfree]

/-- An operator or bracket of one character. -/
theorem stable_sign {c : Char} (hblank : Text.isBlank c = false) (hdigit : c.isDigit = false)
    (hletter : Text.isAlphabetic c = false) (hquote : ¬ (c = '"' ∨ c = '\'')) :
    Stable (plain (signKind c) [c]) := by
  refine ⟨c, [], rfl, fun rest hrest => ?_⟩
  have hmark : ∀ d ∈ rest.head?, Cell.isMark c d = false := by
    intro d hd
    rw [hrest d hd]
    exact isMark_of_lower_ne (by decide)
  rw [List.nil_append, next_of_not_isAlphabetic hblank hdigit hletter hmark, if_neg hquote]
  rcases rest with - | ⟨d, rest⟩
  · rfl
  · obtain rfl := hrest d rfl
    rfl

/-- An operator of two characters. -/
theorem stable_pair {c : Char} {kind : Kind} (hblank : Text.isBlank c = false)
    (hdigit : c.isDigit = false) (hletter : Text.isAlphabetic c = false)
    (hquote : ¬ (c = '"' ∨ c = '\'')) (hkind : pairKind? c '=' = some kind) :
    Stable (plain kind [c, '=']) := by
  refine ⟨c, ['='], rfl, fun rest _ => ?_⟩
  have hmark : ∀ d ∈ (['='] ++ rest).head?, Cell.isMark c d = false := by
    intro d hd
    obtain rfl : '=' = d := by simpa using hd
    exact isMark_of_lower_ne (by decide)
  rw [next_of_not_isAlphabetic hblank hdigit hletter hmark, if_neg hquote, List.cons_append, sign,
    hkind]
  rfl

/-! ### Tokens without their places -/

/-- The kind and the text of a lexeme. -/
def mark? : Piece → Option (Kind × String)
  | .blank _ => none
  | .lexeme kind text _ => some (kind, String.ofList text)

end Piece

/-- A token without its place. -/
def mark (t : Token) : Kind × String := (t.kind, t.text)

theorem map_mark_place (line offset : ℕ) (pieces : List Piece) :
    (place line offset pieces).map mark =
      pieces.filterMap Piece.mark? ++ [(Kind.endOfInput, "")] := by
  induction pieces generalizing line offset with
  | nil => rfl
  | cons piece pieces ih =>
    cases piece with
    | blank c => rw [place, ih, List.filterMap_cons_none rfl]
    | lexeme kind text spelling =>
      have hmark : Piece.mark? (.lexeme kind text spelling) = some (kind, String.ofList text) := rfl
      rw [place, List.map_cons, ih, List.filterMap_cons_some hmark]
      rfl

/-- The tokens of a source are the lexemes among its pieces, and the end of input. -/
theorem map_mark_scan (source : String) :
    (scan source).map mark =
      (pieces source.toList).filterMap Piece.mark? ++ [(Kind.endOfInput, "")] :=
  map_mark_place 1 0 _

/-! ### Pieces with blanks between them -/

/-- More room than characters makes no difference. -/
theorem piecesWithin_eq_pieces {room : ℕ} {text : List Char} (h : text.length ≤ room) :
    piecesWithin room text = pieces text := by
  rw [pieces]
  induction hlength : text.length using Nat.strongRecOn generalizing room text with
  | ind size ih =>
    subst hlength
    rcases text with - | ⟨c, rest⟩
    · cases room <;> rfl
    · have hle := Piece.length_next_le c rest
      rw [List.length_cons] at h
      obtain ⟨room, rfl⟩ : ∃ n, room = n + 1 := ⟨room - 1, by omega⟩
      rw [List.length_cons, piecesWithin, piecesWithin,
        ih _ (by rw [List.length_cons]; omega) (by omega : _ ≤ room) rfl,
        ih _ (by rw [List.length_cons]; omega) (by omega : _ ≤ rest.length) rfl]

theorem pieces_cons (c : Char) (rest : List Char) :
    pieces (c :: rest) = (Piece.next c rest).1 :: pieces (Piece.next c rest).2 := by
  rw [pieces, List.length_cons, piecesWithin,
    piecesWithin_eq_pieces (Piece.length_next_le c rest)]

/-- The spellings of pieces, with a blank in front of each. -/
def spaced (pieces : List Piece) : List Char := pieces.flatMap fun piece => ' ' :: piece.spelling

@[simp] theorem spaced_nil : spaced [] = [] := rfl

@[simp] theorem spaced_cons (piece : Piece) (pieces : List Piece) :
    spaced (piece :: pieces) = ' ' :: (piece.spelling ++ spaced pieces) := rfl

@[simp] theorem spaced_append (before after : List Piece) :
    spaced (before ++ after) = spaced before ++ spaced after := List.flatMap_append

theorem breaks_spaced (pieces : List Piece) : Piece.Breaks (spaced pieces) := by
  cases pieces with
  | nil => simp [spaced, Piece.Breaks]
  | cons piece pieces => simp [spaced, Piece.Breaks]

theorem Piece.Stable.pieces_append {piece : Piece} (h : piece.Stable) {rest : List Char}
    (hrest : Breaks rest) : pieces (piece.spelling ++ rest) = piece :: pieces rest := by
  obtain ⟨c, cs, hspelling, hnext⟩ := h
  rw [hspelling, List.cons_append, pieces_cons, hnext rest hrest]

/-- **Stable pieces with blanks between them come back**, with the blanks. -/
theorem pieces_spaced {stable : List Piece} (h : ∀ piece ∈ stable, piece.Stable) :
    pieces (spaced stable) = stable.flatMap fun piece => [.blank ' ', piece] := by
  induction stable with
  | nil => rfl
  | cons piece stable ih =>
    obtain ⟨hpiece, hstable⟩ := List.forall_mem_cons.mp h
    have hblank : ∀ rest, pieces (' ' :: rest) = .blank ' ' :: pieces rest := by
      intro rest
      rw [pieces_cons, Piece.next.eq_def, if_pos (by decide)]
    rw [spaced_cons, hblank, hpiece.pieces_append (breaks_spaced stable), ih hstable]
    rfl

theorem map_mark_scan_spaced {first : Piece} {stable : List Piece} (hfirst : first.Stable)
    (h : ∀ piece ∈ stable, piece.Stable) :
    (scan (String.ofList (first.spelling ++ spaced stable))).map mark =
      (first :: stable).filterMap Piece.mark? ++ [(Kind.endOfInput, "")] := by
  have hmarks : (stable.flatMap fun piece => [.blank ' ', piece]).filterMap Piece.mark? =
      stable.filterMap Piece.mark? := by
    induction stable with
    | nil => rfl
    | cons piece stable ih =>
      have hrest := ih (List.forall_mem_cons.mp h).2
      rw [List.flatMap_cons, List.filterMap_append, hrest, List.filterMap_cons_none rfl]
      cases hmark : piece.mark? <;> simp [hmark]
  rw [map_mark_scan, String.toList_ofList, hfirst.pieces_append (breaks_spaced stable),
    pieces_spaced h, List.filterMap_cons, hmarks, List.filterMap_cons]

/-! ### Tokens that carry lexemes -/

/-- Tokens are those of some lexemes, wherever they stand. -/
def Carries (tokens : List Token) (pieces : List Piece) : Prop :=
  tokens.map mark = pieces.filterMap Piece.mark?

theorem Carries.exists_append {tokens : List Token} {before after : List Piece}
    (h : Carries tokens (before ++ after)) :
    ∃ first last, tokens = first ++ last ∧ Carries first before ∧ Carries last after := by
  rw [Carries, List.filterMap_append] at h
  exact List.map_eq_append_iff.mp h

theorem Carries.exists_cons {tokens : List Token} {piece : Piece} {pieces : List Piece}
    (h : Carries tokens (piece :: pieces)) (hlexeme : piece.mark?.isSome = true) :
    ∃ t rest, tokens = t :: rest ∧ piece.mark? = some t.mark ∧ Carries rest pieces := by
  obtain ⟨m, hm⟩ := Option.isSome_iff_exists.mp hlexeme
  rw [Carries, List.filterMap_cons_some hm] at h
  obtain ⟨t, rest, htokens, ht, hrest⟩ := List.map_eq_cons_iff.mp h
  exact ⟨t, rest, htokens, by rw [hm, ht], hrest⟩

/-- The kind of a token that carries a lexeme. -/
theorem kind_of_mark? {kind : Kind} {spelling : List Char} {t : Token}
    (h : (Piece.plain kind spelling).mark? = some t.mark) : t.kind = kind :=
  (congrArg Prod.fst (Option.some.inj h)).symm

theorem Carries.eq_nil {tokens : List Token} (h : Carries tokens []) : tokens = [] :=
  List.map_eq_nil_iff.mp h

/-- **The tokens of a text of stable pieces with blanks between them.** -/
theorem exists_carries_scan {first : Piece} {stable : List Piece} (hfirst : first.Stable)
    (h : ∀ piece ∈ stable, piece.Stable) :
    ∃ tokens e, scan (String.ofList (first.spelling ++ spaced stable)) = tokens ++ [e] ∧
      e.kind = .endOfInput ∧ Carries tokens (first :: stable) := by
  have hmarks := map_mark_scan_spaced hfirst h
  obtain ⟨tokens, last, hscan, htokens, hlast⟩ := List.map_eq_append_iff.mp hmarks
  obtain ⟨e, more, rfl, he, hmore⟩ := List.map_eq_cons_iff.mp hlast
  obtain rfl := List.map_eq_nil_iff.mp hmore
  exact ⟨tokens, e, hscan, congrArg Prod.fst he, htokens⟩

end Token

end RegisterRules
