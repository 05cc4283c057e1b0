import RegisterRules.Proofs.Outcome
import RegisterRules.Proofs.Placeless

/-!
# Layout does not matter

The tokens of a source can be written down again with one space between any two of them. A token is
then cut out of its context, and the scanner may have stopped behind it for the sake of what stood
there: a word behind the mark of a column, a second point behind a number, an equals sign behind
another. A space stops it just as well, so every lexeme that the scanner can return is stable.

A string has lost its quotes. It is put between two quotes of a kind that does not occur in it;
there is one, since the scanner found the string behind such a quote.

The tokens are then the same but for their places, and no place gets into a phrase, a message or a
procedure.

## Main definitions

* `Token.Spells`: what may be written for a token that stands alone.

## Main results

* `Token.Piece.stable_of_next`: every lexeme that the scanner returns is stable, strings apart.
* `Token.map_mark_scan_intercalate`: tokens written with spaces between them come back.
* `Settings.compile_of_marks_eq`: a compilation depends on the kinds and texts of the tokens only.
* `Settings.compile_ignores_layout`: the two together.
-/

namespace RegisterRules

namespace Token

/-! ### Lexemes out of their context -/

namespace Piece

theorem stable_of_number {c : Char} {rest text spelling : List Char} {kind : Kind}
    (hc : c.isDigit = true) (h : (number c rest).1 = .lexeme kind text spelling) :
    Stable (plain kind text) := by
  have hdigits : ∀ text : List Char, ∀ d ∈ text.takeWhile Char.isDigit, d.isDigit = true :=
    fun text d hd => List.mem_takeWhile_imp hd
  have hwhole : ∀ d ∈ c :: rest.takeWhile Char.isDigit, d.isDigit = true :=
    List.forall_mem_cons.mpr ⟨hc, hdigits rest⟩
  rw [number] at h
  split at h
  · obtain ⟨rfl, rfl, -⟩ := Piece.lexeme.inj h
    exact stable_point (List.cons_ne_nil _ _) hwhole (hdigits _)
  · obtain ⟨rfl, rfl, -⟩ := Piece.lexeme.inj h
    exact stable_digits (List.cons_ne_nil _ _) hwhole

/-- A word goes on with the character behind its first one, or that character is no part of it. -/
theorem stable_of_word {c : Char} {rest text spelling : List Char} {kind : Kind}
    (hblank : Text.isBlank c = false) (hdigit : c.isDigit = false)
    (hletter : Text.isAlphabetic c = true) (hmark : ∀ d ∈ rest.head?, Cell.isMark c d = false)
    (h : (word c rest).1 = .lexeme kind text spelling) : Stable (plain kind text) := by
  obtain ⟨rfl, rfl, -⟩ := Piece.lexeme.inj h
  refine stable_word hblank hdigit hletter ?_ fun d hd => List.mem_takeWhile_imp hd
  rcases rest with - | ⟨d, more⟩
  · rfl
  · by_cases hd : isWordPart d = true
    · rw [List.takeWhile_cons_of_pos hd]
      exact hmark d rfl
    · rw [List.takeWhile_cons_of_neg hd]
      rfl

theorem stable_of_sign {c : Char} {rest text spelling : List Char} {kind : Kind}
    (hblank : Text.isBlank c = false) (hdigit : c.isDigit = false)
    (hletter : Text.isAlphabetic c = false) (hquote : ¬ (c = '"' ∨ c = '\''))
    (h : (sign c rest).1 = .lexeme kind text spelling) : Stable (plain kind text) := by
  have hsingle : plain (signKind c) [c] = .lexeme kind text spelling →
      Stable (plain kind text) := by
    intro h
    obtain ⟨rfl, rfl, -⟩ := Piece.lexeme.inj h
    exact stable_sign hblank hdigit hletter hquote
  rcases rest with - | ⟨d, more⟩
  · exact hsingle h
  rw [sign] at h
  split at h
  · next hkind =>
    obtain ⟨rfl, rfl, -⟩ := Piece.lexeme.inj h
    obtain ⟨rfl, -⟩ := pairKind?_eq_some hkind
    exact stable_pair hblank hdigit hletter hquote hkind
  · exact hsingle h

/-- **Every lexeme that the scanner returns is stable**, strings apart. -/
theorem stable_of_next {c : Char} {rest text spelling : List Char} {kind : Kind}
    (hkind : kind ≠ .string) (h : (next c rest).1 = .lexeme kind text spelling) :
    Stable (plain kind text) := by
  by_cases hblank : Text.isBlank c = true
  · rw [next.eq_def, if_pos hblank] at h
    cases h
  rw [Bool.not_eq_true] at hblank
  by_cases hmark : ∃ d more, rest = d :: more ∧ Cell.isMark c d = true
  · obtain ⟨d, more, rfl, hmark⟩ := hmark
    rw [next, if_neg (by simp [hblank]), if_pos hmark] at h
    obtain ⟨rfl, rfl, -⟩ := Piece.lexeme.inj h
    exact stable_cell hblank hmark fun e he => List.mem_takeWhile_imp he
  have hsecond : ∀ d ∈ rest.head?, Cell.isMark c d = false := by
    intro d hd
    obtain ⟨more, rfl⟩ := List.head?_eq_some_iff.mp hd
    rw [← Bool.not_eq_true]
    exact fun hd => hmark ⟨d, more, rfl, hd⟩
  rw [next_eq_other hblank hsecond, other] at h
  split at h
  · next hdigit => exact stable_of_number hdigit h
  next hdigit =>
  rw [Bool.not_eq_true] at hdigit
  split at h
  · next hletter => exact stable_of_word hblank hdigit hletter hsecond h
  next hletter =>
  rw [Bool.not_eq_true] at hletter
  split at h
  · rw [string] at h
    split at h
    · exact absurd (Piece.lexeme.inj h).1.symm hkind
    · exact absurd (Piece.lexeme.inj h).1.symm hkind
  · next hquote => exact stable_of_sign hblank hdigit hletter hquote h

end Piece

/-! ### Tokens written down -/

/-- The tokens of a source without the end of input. -/
def lexemes (source : String) : List Token := (scan source).filter (·.kind ≠ .endOfInput)

/-- What may be written for a token that stands alone: its text, between two quotes that do not
occur in it if it is a string. -/
def WrittenAs (t : Token) (word : String) : Prop :=
  if t.kind = .string then
    ∃ quote ∈ ['"', '\''], quote ∉ t.text.toList ∧
      word = String.ofList (quote :: (t.text.toList ++ [quote]))
  else word = t.text

instance (t : Token) (word : String) : Decidable (t.WrittenAs word) :=
  haveI := List.decidableBEx (fun quote => quote ∉ t.text.toList ∧
    word = String.ofList (quote :: (t.text.toList ++ [quote]))) ['"', '\'']
  inferInstanceAs (Decidable (if t.kind = .string then _ else _))

/-- The end of input stands behind all other tokens. -/
theorem scan_eq_lexemes_concat (source : String) :
    scan source = lexemes source ++
      [⟨.endOfInput, "", 1 + source.toList.count '\n', source.toList.length⟩] := by
  obtain ⟨spans, hscan, hcovers⟩ := exists_covers_scan source
  have hkeep : (spans.map Prod.fst).filter (·.kind ≠ .endOfInput) = spans.map Prod.fst := by
    refine List.filter_eq_self.mpr (List.forall_mem_map.mpr fun s hs => ?_)
    simpa using hcovers.notEnd s hs
  rw [lexemes, hscan, List.filter_append, hkeep]
  simp

theorem exists_covers_lexemes (source : String) :
    ∃ spans, lexemes source = spans.map Prod.fst ∧ Covers source.toList 0 spans ∧
      (scan source).map mark = (lexemes source).map mark ++ [(Kind.endOfInput, "")] := by
  obtain ⟨spans, hscan, hcovers⟩ := exists_covers_scan source
  have hlexemes : lexemes source = spans.map Prod.fst :=
    List.append_cancel_right ((scan_eq_lexemes_concat source).symm.trans hscan)
  refine ⟨spans, hlexemes, hcovers, ?_⟩
  rw [hlexemes, hscan, List.map_append]
  rfl

/-- For every token there is something to write: a string was found behind a quote that does not
occur in it. -/
theorem exists_writtenAs_lexemes (source : String) :
    ∃ words, List.Forall₂ WrittenAs (lexemes source) words := by
  obtain ⟨spans, hlexemes, hcovers, -⟩ := exists_covers_lexemes source
  have hsome : ∀ s ∈ spans, ∃ word, WrittenAs s.1 word := by
    intro s hs
    by_cases hkind : s.1.kind = .string
    · obtain ⟨quote, hquote, hfree, -⟩ := (hcovers.occupies s hs).string hkind
      exact ⟨_, (if_pos hkind).mpr ⟨quote, by simpa using hquote, hfree, rfl⟩⟩
    · exact ⟨_, (if_neg hkind).mpr rfl⟩
  rw [hlexemes]
  clear hlexemes hcovers
  induction spans with
  | nil => exact ⟨[], .nil⟩
  | cons s spans ih =>
    obtain ⟨hfirst, hrest⟩ := List.forall_mem_cons.mp hsome
    obtain ⟨word, hword⟩ := hfirst
    obtain ⟨words, hwords⟩ := ih hrest
    exact ⟨word :: words, .cons hword hwords⟩

/-- What is written for a token is a stable piece of the same kind and text. -/
theorem WrittenAs.exists_stable {source : String} {t : Token} {word : String}
    (h : t.WrittenAs word) (hmem : t ∈ lexemes source) :
    ∃ piece : Piece, piece.Stable ∧ piece.spelling = word.toList ∧ piece.mark? = some t.mark := by
  obtain ⟨hscan, hend⟩ := List.mem_filter.mp hmem
  obtain ⟨c, rest, text, spelling, hnext, htext⟩ :=
    exists_next_of_mem_scan hscan (of_decide_eq_true hend)
  have hchars : t.text.toList = text := by rw [htext, String.toList_ofList]
  by_cases hkind : t.kind = .string
  · obtain ⟨quote, hquote, hfree, rfl⟩ := (if_pos hkind).mp h
    refine ⟨_, Piece.stable_string (by simpa using hquote) hfree, ?_, ?_⟩
    · rw [String.toList_ofList]
      rfl
    · rw [Piece.mark?, String.ofList_toList, mark, hkind]
  · obtain rfl : word = t.text := (if_neg hkind).mp h
    refine ⟨_, Piece.stable_of_next hkind hnext, hchars.symm, ?_⟩
    rw [mark, htext]
    rfl

theorem exists_stable_of_forall₂ {source : String} {tokens : List Token} {words : List String}
    (h : List.Forall₂ WrittenAs tokens words) (hmem : ∀ t ∈ tokens, t ∈ lexemes source) :
    ∃ stable : List Piece, (∀ piece ∈ stable, piece.Stable) ∧
      stable.map Piece.spelling = words.map String.toList ∧
      stable.filterMap Piece.mark? = tokens.map mark := by
  induction h with
  | nil => exact ⟨[], by simp, rfl, rfl⟩
  | cons hword _ ih =>
    obtain ⟨hfirst, hrest⟩ := List.forall_mem_cons.mp hmem
    obtain ⟨piece, hpiece, hspelling, hmark⟩ := hword.exists_stable hfirst
    obtain ⟨stable, hstable, hspellings, hmarks⟩ := ih hrest
    refine ⟨piece :: stable, List.forall_mem_cons.mpr ⟨hpiece, hstable⟩, ?_, ?_⟩
    · rw [List.map_cons, List.map_cons, hspelling, hspellings]
    · rw [List.filterMap_cons_some hmark, hmarks, List.map_cons]

theorem intercalate_spelling (first : Piece) (rest : List Piece) :
    [' '].intercalate ((first :: rest).map Piece.spelling) = first.spelling ++ spaced rest := by
  induction rest generalizing first with
  | nil => simp
  | cons second rest ih =>
    rw [List.map_cons, List.map_cons, List.intercalate_cons_cons, ← List.map_cons, ih, spaced_cons]
    simp

/-- **Tokens with single spaces between them come back.** -/
theorem map_mark_scan_intercalate {source : String} {words : List String}
    (h : List.Forall₂ WrittenAs (lexemes source) words) :
    (scan (" ".intercalate words)).map mark = (scan source).map mark := by
  obtain ⟨-, -, -, hscan⟩ := exists_covers_lexemes source
  obtain ⟨stable, hstable, hspellings, hmarks⟩ := exists_stable_of_forall₂ h fun t ht => ht
  have hjoined : (" ".intercalate words).toList =
      [' '].intercalate (stable.map Piece.spelling) := by
    rw [String.toList_intercalate, hspellings]
    rfl
  rw [hscan, ← hmarks]
  rcases stable with - | ⟨first, rest⟩
  · obtain rfl : words = [] := by simpa using hspellings
    rfl
  · obtain ⟨hfirst, hrest⟩ := List.forall_mem_cons.mp hstable
    rw [← map_mark_scan_spaced hfirst hrest, ← intercalate_spelling, ← hjoined,
      String.ofList_toList]

end Token

/-! ### The whole way -/

namespace Settings

/-- **A compilation depends on the kinds and texts of the tokens only**, up to the place that it
reports. -/
theorem compile_of_marks_eq (settings : Settings) {source source' : String}
    (h : (Token.scan source).map Token.mark = (Token.scan source').map Token.mark) :
    (∃ text, settings.compile source = .ok text ∧ settings.compile source' = .ok text) ∨
      ∃ d d', settings.compile source = .error d ∧ settings.compile source' = .error d' ∧
        d'.code = d.code ∧ d'.message = d.message ∧ d'.suggestion = d.suggestion := by
  rcases Phrase.parse_of_marks_eq h with ⟨phrase, hparse, hparse'⟩ |
      ⟨e, e', hparse, hparse', hmessage⟩
  · rw [settings.compile_of_parse hparse, settings.compile_of_parse hparse']
    rcases (phrase.statements.map settings.render).mapError TargetError.diagnostic with d | text
    · exact .inr ⟨d, d, rfl, rfl, rfl, rfl, rfl⟩
    · exact .inl ⟨text, rfl, rfl⟩
  · refine .inr ⟨_, _, settings.compile_of_parse_error hparse,
      settings.compile_of_parse_error hparse', rfl, ?_, rfl⟩
    exact hmessage.symm

/-- **Layout does not matter.** The tokens of a source can be written with single spaces between
them, each string between two quotes that do not occur in it. However that is done, the text has
tokens of the same kinds and texts; and under all settings it compiles to the same procedure, or
both fail with the same code, message and suggestion. -/
theorem compile_ignores_layout (source : String) :
    (∃ words, List.Forall₂ Token.WrittenAs (Token.lexemes source) words) ∧
    ∀ words, List.Forall₂ Token.WrittenAs (Token.lexemes source) words →
      (Token.scan (" ".intercalate words)).map Token.mark = (Token.scan source).map Token.mark ∧
      ∀ settings : Settings,
        (∃ text, settings.compile source = .ok text ∧
          settings.compile (" ".intercalate words) = .ok text) ∨
        ∃ d d', settings.compile source = .error d ∧
          settings.compile (" ".intercalate words) = .error d' ∧
          d'.code = d.code ∧ d'.message = d.message ∧ d'.suggestion = d.suggestion := by
  refine ⟨Token.exists_writtenAs_lexemes source, fun words hwords => ?_⟩
  have hmarks := Token.map_mark_scan_intercalate hwords
  exact ⟨hmarks, fun settings => settings.compile_of_marks_eq hmarks.symm⟩

/-- A rule on two lines with hardly a blank, of which the second string is not closed. -/
def crowded : String := "ЕСЛИ(гр10102212==\"it's\")то\nгр10103206='да"

/-- It compiles to the same procedure if it is written with spaces and other quotes. -/
theorem compile_ignores_layout_crowded :
    List.Forall₂ Token.WrittenAs (Token.lexemes crowded)
      ["ЕСЛИ", "(", "гр10102212", "==", "\"it's\"", ")", "то", "гр10103206", "=", "\"да\""] ∧
    ∀ settings : Settings, ∃ text, settings.compile crowded = .ok text ∧
      settings.compile "ЕСЛИ ( гр10102212 == \"it's\" ) то гр10103206 = \"да\"" = .ok text := by
  have hwords : List.Forall₂ Token.WrittenAs (Token.lexemes crowded)
      ["ЕСЛИ", "(", "гр10102212", "==", "\"it's\"", ")", "то", "гр10103206", "=", "\"да\""] := by
    decide +kernel
  have hparse : Phrase.parse (Token.scan crowded) = .ok (.conditional
      (.binary (.cell ⟨"10102", 2, 12, "10102212"⟩) .eq (.literal (.text "it's")))
      ⟨"10103", 2, 6, "10103206"⟩ (.literal (.text "да"))) := by decide +kernel
  refine ⟨hwords, fun settings => ?_⟩
  rcases ((compile_ignores_layout crowded).2 _ hwords).2 settings with hsame |
      ⟨d, d', hfail, -⟩
  · exact hsame
  · rw [settings.compile_of_parse hparse] at hfail
    cases hfail

end Settings

end RegisterRules
