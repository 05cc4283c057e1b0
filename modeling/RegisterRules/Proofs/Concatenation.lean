import RegisterRules.Proofs.Layout
import RegisterRules.Proofs.Readers

/-!
# Two sources with a blank between them

A blank separates. The tokens of two texts that are put together with a blank between them are those
of the first and those of the second, moved behind it. Only a string that is not closed runs on: it
takes in the blank and whatever follows.

## What carries the proof

No reader looks further than one character, and a blank goes on with nothing. So each reader makes
the same piece whether the text ends or a blank follows, and leaves the blank and what is behind it
untouched. Along the pieces of the first text this gives the pieces of the whole. Places are sums of
what came before, so the tokens behind the blank are moved by the length and the lines before them.

## Main definitions

* `Token.Piece.Bounds`: the characters that go on with no lexeme.
* `Token.ClosedIn`: the string of a token has its closing quote in the source.
* `Token.movedBy`: a token some lines and characters further on.

## Main results

* `Token.Piece.next_append_cons`: one piece in front of a character that bounds it.
* `Token.pieces_append_blank`: the pieces of two texts.
* `Token.place_append`, `Token.place_add`: places behind other pieces.
* `Token.scan_append_blank`: the tokens of two sources.
-/

namespace RegisterRules

/-! ### Blank characters -/

namespace Text

theorem Ranges.exists_mem_of_covers {ranges : Ranges} {point : ℕ}
    (h : ranges.covers point = true) : ∃ r ∈ ranges, r.1 ≤ point ∧ point ≤ r.2 := by
  induction ranges with
  | nil => cases h
  | cons r ranges ih =>
    rw [Ranges.covers] at h
    split at h
    · cases h
    next hfirst =>
    split at h
    · next hlast => exact ⟨r, List.mem_cons_self, Nat.not_lt.mp hfirst, hlast⟩
    · obtain ⟨r', hr', hpoint⟩ := ih h
      exact ⟨r', List.mem_cons_of_mem _ hr', hpoint⟩

/-- There are few blanks, and what has to hold of all of them can be tried out. -/
theorem forall_isBlank {p : Char → Bool}
    (h : blankRanges.all (fun r =>
      (List.range (r.2 + 1 - r.1)).all fun k => p (Char.ofNat (r.1 + k))) = true) {c : Char}
    (hc : isBlank c = true) : p c = true := by
  obtain ⟨r, hr, hlow, hhigh⟩ := Ranges.exists_mem_of_covers hc
  have hrange := List.all_eq_true.mp (List.all_eq_true.mp h r hr) (c.toNat - r.1)
    (List.mem_range.mpr (by omega))
  rwa [Nat.add_sub_cancel' hlow, Char.ofNat_toNat] at hrange

theorem takeWhile_append_cons {p : Char → Bool} {w : Char} (hw : p w = false)
    (front behind : List Char) : (front ++ w :: behind).takeWhile p = front.takeWhile p := by
  induction front with
  | nil => exact List.takeWhile_cons_of_neg (by simp [hw])
  | cons c front ih => rw [List.cons_append, List.takeWhile_cons, List.takeWhile_cons, ih]

theorem dropWhile_append_cons {p : Char → Bool} {w : Char} (hw : p w = false)
    (front behind : List Char) :
    (front ++ w :: behind).dropWhile p = front.dropWhile p ++ w :: behind := by
  induction front with
  | nil => exact List.dropWhile_cons_of_neg (by simp [hw])
  | cons c front ih =>
    rw [List.cons_append, List.dropWhile_cons, List.dropWhile_cons, ih]
    split <;> rfl

end Text

namespace Token

/-! ### One piece in front of a boundary -/

namespace Piece

variable {w : Char} {behind : List Char}

/-- A character that goes on with no lexeme: a reader stops in front of it. -/
structure Bounds (w : Char) : Prop where
  notPart : isWordPart w = false
  notDigit : w.isDigit = false
  notSign : w ≠ '.' ∧ w ≠ '=' ∧ Text.lower w ≠ 'р'

theorem bounds_of_isBlank (hw : Text.isBlank w = true) : Bounds w where
  notPart := by
    simpa using Text.forall_isBlank (p := fun c => !isWordPart c) (by decide +kernel) hw
  notDigit := by
    simpa using Text.forall_isBlank (p := fun c => !c.isDigit) (by decide +kernel) hw
  notSign := by
    have h := Text.forall_isBlank (p := fun c => c ≠ '.' ∧ c ≠ '=' ∧ Text.lower c ≠ 'р')
      (by decide +kernel) hw
    exact of_decide_eq_true h

/-- A piece and what follows it, with more text behind. -/
def followedBy (out : Piece × List Char) (tail : List Char) : Piece × List Char :=
  (out.1, out.2 ++ tail)

theorem cell_append_cons (hw : Bounds w) (c d : Char) (more : List Char) :
    cell c d (more ++ w :: behind) = followedBy (cell c d more) (w :: behind) := by
  have hdigit := hw.notDigit
  rw [cell, Text.takeWhile_append_cons hdigit, Text.dropWhile_append_cons hdigit]
  rfl

theorem word_append_cons (hw : Bounds w) (c : Char) (rest : List Char) :
    word c (rest ++ w :: behind) = followedBy (word c rest) (w :: behind) := by
  have hpart := hw.notPart
  rw [word, Text.takeWhile_append_cons hpart, Text.dropWhile_append_cons hpart]
  rfl

/-- A number with a point. -/
theorem number_of_point {c : Char} {rest more : List Char}
    (h : rest.dropWhile Char.isDigit = '.' :: more) :
    number c rest =
      (plain .number (c :: rest.takeWhile Char.isDigit ++ '.' :: more.takeWhile Char.isDigit),
        more.dropWhile Char.isDigit) := by
  rw [number, h]
  rfl

/-- A number without a point. -/
theorem number_of_no_point {c : Char} {rest : List Char}
    (h : ∀ d ∈ (rest.dropWhile Char.isDigit).head?, d ≠ '.') :
    number c rest =
      (plain .number (c :: rest.takeWhile Char.isDigit), rest.dropWhile Char.isDigit) := by
  rw [number]
  split
  · next more hmore => exact absurd rfl (h '.' (by rw [hmore]; rfl))
  · rfl

theorem number_append_cons (hw : Bounds w) (c : Char) (rest : List Char) :
    number c (rest ++ w :: behind) = followedBy (number c rest) (w :: behind) := by
  have hdigit := hw.notDigit
  have htake := Text.takeWhile_append_cons hdigit rest behind
  have hdrop := Text.dropWhile_append_cons hdigit rest behind
  by_cases hpoint : ∃ more, rest.dropWhile Char.isDigit = '.' :: more
  · obtain ⟨more, hmore⟩ := hpoint
    rw [hmore, List.cons_append] at hdrop
    rw [number_of_point hmore, number_of_point hdrop, htake, Text.takeWhile_append_cons hdigit,
      Text.dropWhile_append_cons hdigit]
    rfl
  · have hnone : ∀ d ∈ (rest.dropWhile Char.isDigit).head?, d ≠ '.' := by
      rintro d hd rfl
      exact hpoint (List.head?_eq_some_iff.mp hd)
    have hnone' : ∀ d ∈ ((rest ++ w :: behind).dropWhile Char.isDigit).head?, d ≠ '.' := by
      intro d hd
      rw [hdrop, List.head?_append] at hd
      rcases hhead : (rest.dropWhile Char.isDigit).head? with - | e
      · rw [hhead] at hd
        cases hd
        exact hw.notSign.1
      · rw [hhead] at hd
        exact hnone d (hhead.trans hd)
    rw [number_of_no_point hnone, number_of_no_point hnone', htake, hdrop]
    rfl

/-- A string whose second quote is there ends with it, whatever follows. -/
theorem string_append {quote : Char} {rest : List Char}
    (h : (rest.takeWhile (· ≠ quote)).length < rest.length) (tail : List Char) :
    string quote (rest ++ tail) = followedBy (string quote rest) tail := by
  have hfree : quote ∉ rest.takeWhile (· ≠ quote) := by
    intro hmem
    simpa using List.mem_takeWhile_imp hmem
  have hsplit : rest.takeWhile (· ≠ quote) ++ rest.dropWhile (· ≠ quote) = rest :=
    List.takeWhile_append_dropWhile
  rcases hdrop : rest.dropWhile (· ≠ quote) with - | ⟨d, more⟩
  · rw [hdrop, List.append_nil] at hsplit
    rw [hsplit] at h
    exact absurd h (Nat.lt_irrefl _)
  · obtain rfl : d = quote := by
      have hstop := List.head?_dropWhile_not (fun c => decide (c ≠ quote)) rest
      rw [hdrop] at hstop
      simpa using hstop
    rw [hdrop] at hsplit
    generalize rest.takeWhile (· ≠ d) = text at hfree hsplit
    rw [← hsplit, string_closed hfree, List.append_assoc, List.cons_append, string_closed hfree]
    rfl

theorem sign_append_cons (hw : Bounds w) (c : Char) (rest : List Char) :
    sign c (rest ++ w :: behind) = followedBy (sign c rest) (w :: behind) := by
  rcases rest with - | ⟨d, more⟩
  · have hpair : pairKind? c w = none := if_neg hw.notSign.2.1
    have hsign : sign c (w :: behind) = (plain (signKind c) [c], w :: behind) := by
      rw [sign, hpair]
    exact hsign
  · rw [List.cons_append, sign, sign]
    rcases pairKind? c d with - | kind
    · rfl
    · rfl

theorem isMarked_append_cons (hw : Bounds w) {c : Char} {rest : List Char}
    (h : Cell.isMarked (c :: rest) = false) :
    Cell.isMarked (c :: (rest ++ w :: behind)) = false := by
  rcases rest with - | ⟨d, more⟩
  · exact isMark_of_lower_ne hw.notSign.2.2
  · exact h

/-- **One piece.** In front of a character that bounds lexemes a text has the same first piece as
without it, unless that is a string that is not closed. -/
theorem next_append_cons (hw : Bounds w) {c : Char} {rest : List Char}
    (hclosed : ∀ text spelling, (next c rest).1 = .lexeme .string text spelling →
      text.length < rest.length) :
    next c (rest ++ w :: behind) = followedBy (next c rest) (w :: behind) := by
  by_cases hblank : Text.isBlank c = true
  · rw [next.eq_def, next.eq_def c rest, if_pos hblank, if_pos hblank]
    rfl
  rw [Bool.not_eq_true] at hblank
  obtain ⟨reader, hreads⟩ := reads_next hblank rest
  -- the same reader takes over in front of the longer text
  generalize hout : next c rest = out at hreads hclosed
  cases hreads with
  | cell hmark =>
    rw [List.cons_append, (Reads.cell hmark).eq_next hblank, cell_append_cons hw]
  | number hmark hdigit =>
    rw [(Reads.number (isMarked_append_cons hw hmark) hdigit).eq_next hblank,
      number_append_cons hw]
  | word hmark hdigit hletter =>
    rw [(Reads.word (isMarked_append_cons hw hmark) hdigit hletter).eq_next hblank,
      word_append_cons hw]
  | string hmark hdigit hletter hquote =>
    rw [(Reads.string (isMarked_append_cons hw hmark) hdigit hletter hquote).eq_next hblank,
      string_append]
    rw [string] at hclosed
    split at hclosed
    · exact hclosed _ _ rfl
    · exact hclosed _ _ rfl
  | sign hmark hdigit hletter hquote =>
    rw [(Reads.sign (isMarked_append_cons hw hmark) hdigit hletter hquote).eq_next hblank,
      sign_append_cons hw]

end Piece

/-! ### The pieces of two texts -/

/-- **Two texts with a blank between them have the pieces of both**, if every string among the
tokens of the first has its second quote there. -/
theorem pieces_append_blank {w : Char} (hw : Text.isBlank w = true) (behind : List Char)
    (line offset : ℕ) {text : List Char}
    (hclosed : ∀ t ∈ place line offset (pieces text), t.kind = .string →
      t.offset + t.text.length + 1 < offset + text.length) :
    pieces (text ++ w :: behind) = pieces text ++ .blank w :: pieces behind := by
  induction hlength : text.length using Nat.strong_induction_on
    generalizing text line offset with
  | _ n ih =>
  rcases text with - | ⟨c, rest⟩
  · rw [List.nil_append, pieces_cons, Piece.next.eq_def, if_pos hw]
    rfl
  have hsplit := congrArg List.length (Piece.spelling_append_next c rest)
  have hle := Piece.length_next_le c rest
  rw [List.length_append, List.length_cons] at hsplit
  rw [List.length_cons] at hlength
  rw [pieces_cons, place.eq_def] at hclosed
  dsimp only at hclosed
  have hfirst : ∀ text spelling, (Piece.next c rest).1 = .lexeme .string text spelling →
      text.length < rest.length := by
    intro text spelling hpiece
    rw [hpiece] at hclosed
    have hbound := hclosed _ List.mem_cons_self rfl
    rw [String.length_ofList, List.length_cons] at hbound
    change offset + text.length + 1 < offset + (rest.length + 1) at hbound
    omega
  have hlater : ∀ t ∈ place (line + (Piece.next c rest).1.spelling.count '\n')
      (offset + (Piece.next c rest).1.spelling.length) (pieces (Piece.next c rest).2),
      t.kind = .string → t.offset + t.text.length + 1 <
        offset + (Piece.next c rest).1.spelling.length + (Piece.next c rest).2.length := by
    intro t ht hkind
    rw [Nat.add_assoc offset, hsplit]
    refine hclosed t ?_ hkind
    split
    · exact ht
    · exact List.mem_cons_of_mem _ ht
  rw [List.cons_append, pieces_cons,
    Piece.next_append_cons (Piece.bounds_of_isBlank hw) hfirst, pieces_cons, List.cons_append]
  exact congrArg _ (ih _ (by omega) _ _ hlater rfl)

/-! ### Places behind other pieces -/

/-- A token some lines and characters further on. -/
def movedBy (lines chars : ℕ) (t : Token) : Token :=
  { t with line := t.line + lines, offset := t.offset + chars }

theorem place_ne_nil (line offset : ℕ) (pieces : List Piece) : place line offset pieces ≠ [] := by
  induction pieces generalizing line offset with
  | nil => exact List.cons_ne_nil _ _
  | cons piece pieces ih =>
    cases piece with
    | blank c => exact ih _ _
    | lexeme kind text spelling => exact List.cons_ne_nil _ _

/-- Pieces behind others are placed behind what the others spell. -/
theorem place_append (line offset : ℕ) (first second : List Piece) :
    place line offset (first ++ second) =
      (place line offset first).dropLast ++
        place (line + (first.flatMap Piece.spelling).count '\n')
          (offset + (first.flatMap Piece.spelling).length) second := by
  induction first generalizing line offset with
  | nil => rfl
  | cons piece first ih =>
    rw [List.flatMap_cons, List.count_append, List.length_append, ← Nat.add_assoc,
      ← Nat.add_assoc]
    cases piece with
    | blank c =>
      rw [List.cons_append, place, place]
      exact ih _ _
    | lexeme kind text spelling =>
      rw [List.cons_append, place, place, ih, List.dropLast_cons_of_ne_nil (place_ne_nil _ _ _)]
      rfl

/-- Pieces that start further on have their tokens further on. -/
theorem place_add (line offset lines chars : ℕ) (pieces : List Piece) :
    place (line + lines) (offset + chars) pieces =
      (place line offset pieces).map (movedBy lines chars) := by
  induction pieces generalizing line offset with
  | nil => rfl
  | cons piece pieces ih =>
    cases piece with
    | blank c =>
      rw [place, place, Nat.add_right_comm, Nat.add_right_comm offset]
      exact ih _ _
    | lexeme kind text spelling =>
      rw [place, place, Nat.add_right_comm, Nat.add_right_comm offset, ih]
      rfl

/-! ### The tokens of two sources -/

/-- The string of a token is closed in a source: the quote in front of its text stands behind it
too. -/
def ClosedIn (source : String) (t : Token) : Prop :=
  source.toList[t.offset + t.text.length + 1]? = source.toList[t.offset]?

instance (source : String) (t : Token) : Decidable (ClosedIn source t) :=
  inferInstanceAs (Decidable (_ = _))

/-- A token that is closed in a source ends before the source does. -/
theorem ClosedIn.lt_length {source : String} {t : Token} (h : ClosedIn source t)
    (hmem : t ∈ scan source) (hkind : t.kind ≠ .endOfInput) :
    t.offset + t.text.length + 1 < source.toList.length := by
  obtain ⟨spans, hscan, hcovers⟩ := exists_covers_scan source
  rw [hscan, List.mem_append, List.mem_singleton] at hmem
  rcases hmem with hmem | rfl
  · obtain ⟨s, hs, rfl⟩ := List.mem_map.mp hmem
    have hoccupies := hcovers.occupies s hs
    have hstart := Nat.lt_of_lt_of_le hoccupies.lt_stop hoccupies.stop_le
    rw [ClosedIn, List.getElem?_eq_getElem hstart] at h
    exact (List.getElem?_eq_some_iff.mp h).1
  · exact absurd rfl hkind

/-- **Scanning distributes over a blank.** Let two sources be put together with a blank between
them, and let every string of the first be closed in it. Then the tokens of the whole are those of
the first without its end of input, and those of the second, moved by the characters and the line
breaks before it. -/
theorem scan_append_blank {first : String} {w : Char} (hw : Text.isBlank w = true)
    (hclosed : ∀ t ∈ scan first, t.kind = .string → ClosedIn first t) (second : String) :
    scan (first ++ String.singleton w ++ second) =
      lexemes first ++
        (scan second).map (movedBy ((first ++ String.singleton w).toList.count '\n')
          (first.length + 1)) := by
  have hpieces : pieces (first.toList ++ w :: second.toList) =
      pieces first.toList ++ .blank w :: pieces second.toList := by
    refine pieces_append_blank hw second.toList 1 0 fun t ht hkind => ?_
    rw [Nat.zero_add]
    exact (hclosed t ht hkind).lt_length ht (by simp [hkind])
  have hsource : (first ++ String.singleton w ++ second).toList =
      first.toList ++ w :: second.toList := by
    simp
  have hlines : 1 + first.toList.count '\n' + [w].count '\n' =
      1 + (first ++ String.singleton w).toList.count '\n' := by
    simp [List.count_append, Nat.add_assoc]
  have hchars : 0 + first.toList.length + [w].length = 0 + (first.length + 1) := by
    rw [String.length_toList]
    rfl
  have hfirst : (place 1 0 (pieces first.toList)).dropLast = lexemes first := by
    rw [← scan, scan_eq_lexemes_concat, List.dropLast_concat]
  rw [scan, hsource, hpieces, place_append, flatMap_pieces, place, hfirst]
  change _ ++ place (1 + first.toList.count '\n' + [w].count '\n')
    (0 + first.toList.length + [w].length) (pieces second.toList) = _
  rw [hlines, hchars, place_add]
  rfl

/-- A line break behind a string with a line break in it, and a source that is not closed. -/
theorem scan_append_blank_lineBreaks :
    (∀ t ∈ scan "гр10102212=='а\nб'", t.kind = .string → ClosedIn "гр10102212=='а\nб'" t) ∧
    scan "гр10102212=='а\nб'\nто \"" =
      lexemes "гр10102212=='а\nб'" ++ (scan "то \"").map (movedBy 2 18) := by
  have hclosed : ∀ t ∈ scan "гр10102212=='а\nб'", t.kind = .string →
      ClosedIn "гр10102212=='а\nб'" t := by decide +kernel
  exact ⟨hclosed, scan_append_blank (w := '\n') (by decide) hclosed "то \""⟩

end Token

end RegisterRules
