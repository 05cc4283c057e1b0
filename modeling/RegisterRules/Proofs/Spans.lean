import Mathlib.Data.List.TakeWhile
import RegisterRules.Token.Scanner

/-!
# Where tokens stand in the source

Every token of a source occupies a span of it, from its offset on. A token that is no string is
spelled by its text; a string has a quote in front of its text and, unless the source is over, the
same quote behind it. The spans follow each other without overlap, and between them there is
nothing but blanks.

## The two steps

A piece depends only on the characters from its start on, and `Piece.Shape` says what the readers
can make of them. The rest is bookkeeping along the pieces: `Covers source start spans` says that
the spans account for the source from `start` on, and it grows to the left by one piece at a time.

## Main definitions

* `Token.Piece.Shape`: what a piece can be, given what follows it.
* `Token.Occupies`: a token stands in a source from its offset up to another place.
* `Token.Covers`: spans account for a source from a place on.

## Main results

* `Token.Piece.shape_next`: the first piece of a text has a shape.
* `Token.exists_covers_scan`: the tokens of a source cover it, and the end of input is at its end.
* `Token.scan_lossless`: the same, spelled out.
-/

namespace RegisterRules

namespace Token

namespace Piece

/-! ### What a piece can be -/

/-- What a piece can be, given the characters that follow it. -/
inductive Shape : Piece → List Char → Prop
  /-- A blank character. -/
  | blank {c : Char} {rest : List Char} (isBlank : Text.isBlank c = true) : Shape (.blank c) rest
  /-- A lexeme that is spelled by its text, on one line. -/
  | plain {kind : Kind} {spelling rest : List Char} (notString : kind ≠ .string)
      (notEnd : kind ≠ .endOfInput) (ne_nil : spelling ≠ []) (oneLine : '\n' ∉ spelling) :
      Shape (plain kind spelling) rest
  /-- A string between two quotes. -/
  | closed {quote : Char} {text rest : List Char} (isQuote : quote = '"' ∨ quote = '\'')
      (free : quote ∉ text) : Shape (.lexeme .string text (quote :: (text ++ [quote]))) rest
  /-- A string that runs to the end of the source. -/
  | unclosed {quote : Char} {text : List Char} (isQuote : quote = '"' ∨ quote = '\'')
      (free : quote ∉ text) : Shape (.lexeme .string text (quote :: text)) []

theorem newline_not_mem_takeWhile {p : Char → Bool} (h : p '\n' = false) (text : List Char) :
    '\n' ∉ text.takeWhile p := by
  intro hmem
  rw [List.mem_takeWhile_imp hmem] at h
  cases h

/-- The kinds of words. -/
theorem wordKind_mem (word : String) :
    (Kind.keyword? word).getD .identifier ∈ .identifier :: Kind.keywords.map Prod.snd := by
  rcases hkind : Kind.keyword? word with - | kind
  · exact List.mem_cons_self
  · obtain ⟨before, after, heq, -⟩ := List.lookup_eq_some_iff.mp hkind
    rw [heq]
    simp

theorem shape_word {c : Char} (rest : List Char) (hc : c ≠ '\n') :
    Shape (word c rest).1 (word c rest).2 := by
  have hkinds : ∀ kind ∈ Kind.identifier :: Kind.keywords.map Prod.snd,
      kind ≠ .string ∧ kind ≠ .endOfInput := by decide
  obtain ⟨hstring, hend⟩ := hkinds _
    (wordKind_mem (String.ofList ((c :: rest.takeWhile isWordPart).map Text.lower)))
  refine .plain hstring hend (by simp) ?_
  rw [List.mem_cons, not_or]
  exact ⟨hc.symm, newline_not_mem_takeWhile (by decide) rest⟩

theorem shape_number {c : Char} (rest : List Char) (hc : c ≠ '\n') :
    Shape (number c rest).1 (number c rest).2 := by
  have hdigits : ∀ text : List Char, '\n' ∉ text.takeWhile Char.isDigit :=
    newline_not_mem_takeWhile (by decide)
  rw [number]
  split
  · refine .plain (by decide) (by decide) (by simp) ?_
    simp [hc.symm, hdigits]
  · refine .plain (by decide) (by decide) (by simp) ?_
    simp [hc.symm, hdigits]

theorem shape_cell {c d : Char} (rest : List Char) (hc : c ≠ '\n') (hd : d ≠ '\n') :
    Shape (cell c d rest).1 (cell c d rest).2 := by
  refine .plain (by decide) (by decide) (by simp) ?_
  simp only [List.mem_cons, not_or]
  exact ⟨hc.symm, hd.symm, newline_not_mem_takeWhile (by decide) rest⟩

theorem shape_string {quote : Char} (rest : List Char) (hquote : quote = '"' ∨ quote = '\'') :
    Shape (string quote rest).1 (string quote rest).2 := by
  have hfree : quote ∉ rest.takeWhile (· ≠ quote) := by
    intro hmem
    simpa using List.mem_takeWhile_imp hmem
  rw [string]
  split
  · exact .unclosed hquote hfree
  · exact .closed hquote hfree

/-- The kinds of operators and brackets of one character. -/
def signKinds : List Kind :=
  [ .assign, .greater, .less, .plus, .minus, .multiply, .divide, .modulo, .openParen, .closeParen,
    .comma, .dot, .colon, .invalid ]

/-- The kinds of operators of two characters. -/
def pairKinds : List Kind := [.equals, .notEquals, .greaterOrEqual, .lessOrEqual]

theorem signKind_mem (c : Char) : signKind c ∈ signKinds := by
  rw [signKind]
  repeat' refine iteInduction (motive := (· ∈ signKinds)) (fun _ => by decide) fun _ => ?_
  decide

theorem pairKind?_eq_some {c d : Char} {kind : Kind} (h : pairKind? c d = some kind) :
    d = '=' ∧ kind ∈ pairKinds := by
  rw [pairKind?] at h
  split at h
  · next hd =>
    refine ⟨hd, ?_⟩
    repeat' split at h
    all_goals cases h
    all_goals decide
  · cases h

theorem kind_mem_of_sign {c : Char} {rest text spelling : List Char} {kind : Kind}
    (h : (sign c rest).1 = .lexeme kind text spelling) : kind ∈ signKinds ++ pairKinds := by
  have hsingle : plain (signKind c) [c] = .lexeme kind text spelling →
      kind ∈ signKinds ++ pairKinds := by
    intro h
    obtain ⟨rfl, -⟩ := Piece.lexeme.inj h
    exact List.mem_append_left _ (signKind_mem c)
  rcases rest with - | ⟨d, more⟩
  · exact hsingle h
  · rw [sign] at h
    split at h
    · next hkind =>
      obtain ⟨rfl, -⟩ := Piece.lexeme.inj h
      exact List.mem_append_right _ (pairKind?_eq_some hkind).2
    · exact hsingle h

theorem shape_sign {c : Char} (rest : List Char) (hc : c ≠ '\n') :
    Shape (sign c rest).1 (sign c rest).2 := by
  have hkinds : ∀ kind ∈ signKinds ++ pairKinds, kind ≠ .string ∧ kind ≠ .endOfInput := by decide
  have hsingle : ∀ rest, Shape (.plain (signKind c) [c]) rest := by
    intro rest
    obtain ⟨hstring, hend⟩ := hkinds _ (List.mem_append_left _ (signKind_mem c))
    exact .plain hstring hend (by simp) (by simpa using hc.symm)
  rcases rest with - | ⟨d, more⟩
  · exact hsingle []
  rw [sign]
  split
  · next kind hkind =>
    obtain ⟨rfl, hmem⟩ := pairKind?_eq_some hkind
    obtain ⟨hstring, hend⟩ := hkinds _ (List.mem_append_right _ hmem)
    exact .plain hstring hend (by simp) (by simpa using hc.symm)
  · exact hsingle (d :: more)

/-- The two letters of a mark. -/
theorem ne_newline_of_isMark {c d : Char} (h : Cell.isMark c d = true) : c ≠ '\n' ∧ d ≠ '\n' := by
  rw [Cell.isMark, Bool.and_eq_true] at h
  refine ⟨?_, ?_⟩
  · rintro rfl
    exact absurd h.1 (by decide)
  · rintro rfl
    exact absurd h.2 (by decide)

/-- **The first piece of a text has a shape.** -/
theorem shape_next (c : Char) (rest : List Char) : Shape (next c rest).1 (next c rest).2 := by
  rw [next.eq_def]
  split
  · next hblank => exact .blank hblank
  · next hblank =>
    have hc : c ≠ '\n' := by
      rintro rfl
      exact hblank (by decide)
    have hother : ∀ rest, Shape (other c rest).1 (other c rest).2 := by
      intro rest
      rw [other]
      split
      · exact shape_number rest hc
      split
      · exact shape_word rest hc
      split
      · next hquote => exact shape_string rest hquote
      · exact shape_sign rest hc
    split
    · exact hother []
    · next d more =>
      split
      · next hmark =>
        obtain ⟨hc, hd⟩ := ne_newline_of_isMark hmark
        exact shape_cell more hc hd
      · exact hother (d :: more)

end Piece

/-! ### Spans -/

/-- A token stands in a source from its offset up to `stop`. -/
structure Occupies (source : List Char) (t : Token) (stop : ℕ) : Prop where
  /-- Lines are counted by the line breaks before the token. -/
  line_eq : t.line = 1 + (source.take t.offset).count '\n'
  /-- The span is not empty. -/
  lt_stop : t.offset < stop
  stop_le : stop ≤ source.length
  /-- A token that is no string is spelled by its text, which is not empty and stays on one line. -/
  plain : t.kind ≠ .string →
    (source.take stop).drop t.offset = t.text.toList ∧ t.text ≠ "" ∧ '\n' ∉ t.text.toList
  /-- A string is its text between two quotes that do not occur in it. The second may be absent at
  the end of the source. -/
  string : t.kind = .string →
    ∃ quote, (quote = '"' ∨ quote = '\'') ∧ quote ∉ t.text.toList ∧
      ((source.take stop).drop t.offset = quote :: (t.text.toList ++ [quote]) ∨
        ((source.take stop).drop t.offset = quote :: t.text.toList ∧ stop = source.length))

/-- Tokens, each with the end of its span, account for a source from `start` on. -/
structure Covers (source : List Char) (start : ℕ) (spans : List (Token × ℕ)) : Prop where
  /-- Only the end of input has its kind. -/
  notEnd : ∀ s ∈ spans, s.1.kind ≠ .endOfInput
  start_le : ∀ s ∈ spans, start ≤ s.1.offset
  occupies : ∀ s ∈ spans, Occupies source s.1 s.2
  /-- A span ends before the next one begins. -/
  ordered : spans.Pairwise fun s later => s.2 ≤ later.1.offset
  /-- What belongs to no span is blank. -/
  blank : ∀ i c, start ≤ i → source[i]? = some c →
    (∀ s ∈ spans, ¬ (s.1.offset ≤ i ∧ i < s.2)) → Text.isBlank c = true

theorem covers_nil (source : List Char) : Covers source source.length [] where
  notEnd := by simp
  start_le := by simp
  occupies := by simp
  ordered := .nil
  blank i c hi hc := by
    rw [List.getElem?_eq_none hi] at hc
    cases hc

/-- One more blank in front. -/
theorem Covers.cons_blank {source : List Char} {start : ℕ} {spans : List (Token × ℕ)} {c : Char}
    (h : Covers source (start + 1) spans) (hc : source[start]? = some c)
    (hblank : Text.isBlank c = true) : Covers source start spans where
  notEnd := h.notEnd
  start_le s hs := Nat.le_of_succ_le (h.start_le s hs)
  occupies := h.occupies
  ordered := h.ordered
  blank i d hi hd hfree := by
    rcases Nat.eq_or_lt_of_le hi with rfl | hlt
    · rw [hc] at hd
      cases hd
      exact hblank
    · exact h.blank i d hlt hd hfree

/-- One more token in front. -/
theorem Covers.cons_token {source : List Char} {t : Token} {stop : ℕ} {spans : List (Token × ℕ)}
    (h : Covers source stop spans) (hkind : t.kind ≠ .endOfInput) (ht : Occupies source t stop) :
    Covers source t.offset ((t, stop) :: spans) where
  notEnd := List.forall_mem_cons.mpr ⟨hkind, h.notEnd⟩
  start_le := List.forall_mem_cons.mpr
    ⟨Nat.le_refl _, fun s hs => Nat.le_trans (Nat.le_of_lt ht.lt_stop) (h.start_le s hs)⟩
  occupies := List.forall_mem_cons.mpr ⟨ht, h.occupies⟩
  ordered := .cons h.start_le h.ordered
  blank i c hi hc hfree := by
    obtain ⟨hout, hfree⟩ := List.forall_mem_cons.mp hfree
    have hstop : stop ≤ i := by
      by_contra hlt
      exact hout ⟨hi, Nat.not_le.mp hlt⟩
    exact h.blank i c hstop hc hfree

/-- The token of a lexeme stands where the lexeme does. -/
theorem occupies_of_shape {kind : Kind} {text spelling rest : List Char} (before : List Char)
    (h : Piece.Shape (.lexeme kind text spelling) rest) :
    Occupies (before ++ (spelling ++ rest))
      ⟨kind, String.ofList text, 1 + before.count '\n', before.length⟩
      (before ++ spelling).length := by
  have hspan : ((before ++ (spelling ++ rest)).take (before ++ spelling).length).drop
      before.length = spelling := by
    rw [← List.append_assoc, List.take_left, List.drop_left]
  have hne : spelling ≠ [] := by
    cases h with
    | plain _ _ hne => exact hne
    | closed => simp
    | unclosed => simp
  constructor
  · rw [List.take_left]
  · have hpos := List.length_pos_iff.mpr hne
    change before.length < (before ++ spelling).length
    rw [List.length_append]
    omega
  · simp only [List.length_append]
    omega
  · intro hkind
    rw [hspan, String.toList_ofList]
    cases h with
    | plain _ _ _ hline => exact ⟨rfl, by simpa using hne, hline⟩
    | closed => exact absurd rfl hkind
    | unclosed => exact absurd rfl hkind
  · intro hkind
    rw [hspan, String.toList_ofList]
    cases h with
    | plain hstring => exact absurd hkind hstring
    | @closed quote _ _ hquote hfree => exact ⟨quote, hquote, hfree, .inl rfl⟩
    | @unclosed quote _ hquote hfree =>
      exact ⟨quote, hquote, hfree, .inr ⟨rfl, by rw [List.append_nil]⟩⟩

theorem kind_ne_of_shape {kind : Kind} {text spelling rest : List Char}
    (h : Piece.Shape (.lexeme kind text spelling) rest) : kind ≠ .endOfInput := by
  cases h with
  | plain _ hend => exact hend
  | closed => decide
  | unclosed => decide

/-- **Step by step.** With room for every character, the tokens of a text that stands behind
`before` cover the whole from there on. -/
theorem exists_covers_place {room : ℕ} (before text : List Char) (h : text.length ≤ room) :
    ∃ spans,
      place (1 + before.count '\n') before.length (piecesWithin room text) =
        spans.map Prod.fst ++
          [⟨.endOfInput, "", 1 + (before ++ text).count '\n', (before ++ text).length⟩] ∧
      Covers (before ++ text) before.length spans := by
  induction room generalizing before text with
  | zero =>
    rw [List.length_eq_zero_iff.mp (by omega : text.length = 0), List.append_nil]
    exact ⟨[], rfl, covers_nil before⟩
  | succ room ih =>
    rcases text with - | ⟨c, tail⟩
    · rw [List.append_nil]
      exact ⟨[], rfl, covers_nil before⟩
    have hshape := Piece.shape_next c tail
    have hsplit := Piece.spelling_append_next c tail
    have hlength := Piece.length_next_le c tail
    rw [List.length_cons] at h
    rw [piecesWithin]
    generalize (Piece.next c tail).1 = piece at hshape hsplit
    generalize (Piece.next c tail).2 = rest at hshape hsplit hlength
    -- the place behind the piece is where the rest of the text starts
    obtain ⟨spans, hplace, hcovers⟩ := ih (before ++ piece.spelling) rest (by omega)
    rw [List.append_assoc, hsplit] at hplace hcovers
    rw [List.count_append, List.length_append, ← Nat.add_assoc] at hplace
    cases piece with
    | blank d =>
      cases hshape with
      | blank hblank =>
        refine ⟨spans, ?_, ?_⟩
        · rw [place]
          exact hplace
        · rw [List.length_append] at hcovers
          refine hcovers.cons_blank (c := d) ?_ hblank
          rw [← hsplit]
          simp [Piece.spelling]
    | lexeme kind text spelling =>
      refine ⟨(⟨kind, String.ofList text, 1 + before.count '\n', before.length⟩,
        (before ++ spelling).length) :: spans, ?_, ?_⟩
      · rw [place, hplace]
        rfl
      · have hoccupies := occupies_of_shape before hshape
        rw [show spelling ++ rest = c :: tail from hsplit] at hoccupies
        exact hcovers.cons_token (kind_ne_of_shape hshape) hoccupies

/-- The tokens of a source cover it, and the end of input stands at its end. -/
theorem exists_covers_scan (source : String) :
    ∃ spans,
      scan source = spans.map Prod.fst ++
        [⟨.endOfInput, "", 1 + source.toList.count '\n', source.toList.length⟩] ∧
      Covers source.toList 0 spans :=
  exists_covers_place [] source.toList (Nat.le_refl _)

/-- Every token of a source, the end of input included, lies inside of it, on the line of its
offset. -/
theorem place_of_mem_scan {source : String} {t : Token} (h : t ∈ scan source) :
    t.offset ≤ source.length ∧ t.line = 1 + (source.toList.take t.offset).count '\n' := by
  obtain ⟨spans, hscan, hcovers⟩ := exists_covers_scan source
  rw [hscan, List.mem_append, List.mem_singleton] at h
  rcases h with h | rfl
  · obtain ⟨s, hs, rfl⟩ := List.mem_map.mp h
    have hoccupies := hcovers.occupies s hs
    exact ⟨Nat.le_trans (Nat.le_of_lt hoccupies.lt_stop) hoccupies.stop_le, hoccupies.line_eq⟩
  · refine ⟨Nat.le_refl _, ?_⟩
    rw [List.take_length]

/-- **Tokenization loses nothing and its places are exact.** The tokens of a source are those of
some spans and the end of input, which stands behind the last character and on the last line. Each
of the others occupies its span; the spans follow each other; and every character outside of them is
blank. -/
theorem scan_lossless (source : String) :
    ∃ spans : List (Token × ℕ),
      scan source = spans.map Prod.fst ++
        [⟨.endOfInput, "", 1 + source.toList.count '\n', source.length⟩] ∧
      (∀ s ∈ spans, s.1.kind ≠ .endOfInput ∧ Occupies source.toList s.1 s.2) ∧
      (spans.Pairwise fun s later => s.2 ≤ later.1.offset) ∧
      ∀ i c, source.toList[i]? = some c → (∀ s ∈ spans, ¬ (s.1.offset ≤ i ∧ i < s.2)) →
        Text.isBlank c = true := by
  obtain ⟨spans, hscan, hcovers⟩ := exists_covers_scan source
  refine ⟨spans, hscan, fun s hs => ⟨hcovers.notEnd s hs, hcovers.occupies s hs⟩,
    hcovers.ordered, fun i c hc hfree => ?_⟩
  exact hcovers.blank i c (Nat.zero_le i) hc hfree

end Token

end RegisterRules
