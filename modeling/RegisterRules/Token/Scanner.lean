import RegisterRules.Text.Alphabetic
import RegisterRules.Text.Blank
import RegisterRules.Text.Numeric
import RegisterRules.Token

/-!
# From source text to tokens

Scanning goes in two steps. First the source is cut into pieces, each a blank character or a lexeme;
a piece depends only on the characters from its start on, never on its place. Then every lexeme gets
its place, the sum of what came before it. So nothing of the source is lost, and a character that no
token can start with becomes a token of its own.

## Main definitions

* `Token.Piece`: a blank character, or a lexeme with its kind, its text and its spelling.
* `Token.Piece.next`: the first piece of a text that is not empty.
* `Token.pieces`: all pieces of a text.
* `Token.place`: tokens from pieces.
* `Token.scan`: the tokens of a source text, the end of input last.

## Main results

* `Token.flatMap_pieces`: the pieces of a text make it up.
-/

namespace RegisterRules

namespace Token

/-- A piece of the source. The text of a lexeme is its spelling, except that a string has its quotes
in the spelling only. -/
inductive Piece where
  | blank (c : Char)
  | lexeme (kind : Kind) (text spelling : List Char)
deriving DecidableEq

namespace Piece

/-- The characters of the source that make up a piece. -/
def spelling : Piece → List Char
  | .blank c => [c]
  | .lexeme _ _ spelling => spelling

/-- A lexeme whose text is its spelling. -/
def plain (kind : Kind) (spelling : List Char) : Piece := .lexeme kind spelling spelling

/-- Whether a character goes on with a word. -/
def isWordPart (c : Char) : Bool := Text.isAlphabetic c || Text.isNumeric c || c = '_'

/-- A word: letters, numeric characters and low lines. In small letters it may be a keyword. -/
def word (c : Char) (rest : List Char) : Piece × List Char :=
  let spelling := c :: rest.takeWhile isWordPart
  let kind := (Kind.keyword? (String.ofList (spelling.map Text.lower))).getD .identifier
  (plain kind spelling, rest.dropWhile isWordPart)

/-- A number: digits with at most one point among or after them. -/
def number (c : Char) (rest : List Char) : Piece × List Char :=
  let whole := c :: rest.takeWhile Char.isDigit
  match rest.dropWhile Char.isDigit with
  | '.' :: more =>
    (plain .number (whole ++ '.' :: more.takeWhile Char.isDigit), more.dropWhile Char.isDigit)
  | rest => (plain .number whole, rest)

/-- A column reference: the two letters of the mark and all digits behind them. -/
def cell (first second : Char) (rest : List Char) : Piece × List Char :=
  (plain .identifier (first :: second :: rest.takeWhile Char.isDigit), rest.dropWhile Char.isDigit)

/-- A string: everything up to the next quote of the same kind, or to the end of the source. -/
def string (quote : Char) (rest : List Char) : Piece × List Char :=
  let text := rest.takeWhile (· ≠ quote)
  match rest.dropWhile (· ≠ quote) with
  | [] => (.lexeme .string text (quote :: text), [])
  | _ :: rest => (.lexeme .string text (quote :: (text ++ [quote])), rest)

/-- The kind of an operator of two characters. -/
def pairKind? (first second : Char) : Option Kind :=
  if second = '=' then
    if first = '=' then some .equals
    else if first = '!' then some .notEquals
    else if first = '>' then some .greaterOrEqual
    else if first = '<' then some .lessOrEqual
    else none
  else none

/-- The kind of an operator or bracket of one character. -/
def signKind (c : Char) : Kind :=
  if c = '=' then .assign
  else if c = '>' then .greater
  else if c = '<' then .less
  else if c = '+' then .plus
  else if c = '-' then .minus
  else if c = '*' then .multiply
  else if c = '/' then .divide
  else if c = '%' then .modulo
  else if c = '(' then .openParen
  else if c = ')' then .closeParen
  else if c = ',' then .comma
  else if c = '.' then .dot
  else if c = ':' then .colon
  else .invalid

/-- An operator, a bracket or an unknown character; two characters are tried before one. -/
def sign (c : Char) (rest : List Char) : Piece × List Char :=
  match rest with
  | [] => (plain (signKind c) [c], [])
  | d :: more =>
    match pairKind? c d with
    | some kind => (plain kind [c, d], more)
    | none => (plain (signKind c) [c], d :: more)

/-- A piece that starts with a character which neither is blank nor starts a column reference. -/
def other (c : Char) (rest : List Char) : Piece × List Char :=
  if c.isDigit then number c rest
  else if Text.isAlphabetic c then word c rest
  else if c = '"' ∨ c = '\'' then string c rest
  else sign c rest

/-- The first piece of a text, given by its first character and the rest, and what follows it. -/
def next (c : Char) (rest : List Char) : Piece × List Char :=
  if Text.isBlank c then (.blank c, rest)
  else
    match rest with
    | [] => other c []
    | d :: more => if Cell.isMark c d then cell c d more else other c (d :: more)

/-! ### Nothing is lost

Each reader splits the text in two: the spelling of its piece and what follows. -/

theorem spelling_append_word (c : Char) (rest : List Char) :
    (word c rest).1.spelling ++ (word c rest).2 = c :: rest := by
  simp [word, plain, spelling, List.takeWhile_append_dropWhile]

theorem spelling_append_number (c : Char) (rest : List Char) :
    (number c rest).1.spelling ++ (number c rest).2 = c :: rest := by
  have split : rest.takeWhile Char.isDigit ++ rest.dropWhile Char.isDigit = rest :=
    List.takeWhile_append_dropWhile
  rw [number]
  split
  · next more h => rw [h] at split; simp [plain, spelling, List.takeWhile_append_dropWhile, split]
  · simp [plain, spelling, split]

theorem spelling_append_cell (c d : Char) (rest : List Char) :
    (cell c d rest).1.spelling ++ (cell c d rest).2 = c :: d :: rest := by
  simp [cell, plain, spelling, List.takeWhile_append_dropWhile]

theorem spelling_append_string (quote : Char) (rest : List Char) :
    (string quote rest).1.spelling ++ (string quote rest).2 = quote :: rest := by
  have split : rest.takeWhile (· ≠ quote) ++ rest.dropWhile (· ≠ quote) = rest :=
    List.takeWhile_append_dropWhile
  rw [string]
  split
  · next h => rw [h] at split; simpa [spelling] using split
  · next d more h =>
    have hd : d = quote := by
      have := List.head?_dropWhile_not (p := fun x => decide (x ≠ quote)) (l := rest)
      rw [h] at this
      simpa using this
    rw [h, hd] at split
    simpa [spelling] using split

theorem spelling_append_sign (c : Char) (rest : List Char) :
    (sign c rest).1.spelling ++ (sign c rest).2 = c :: rest := by
  cases rest with
  | nil => simp [sign, plain, spelling]
  | cons d more => rw [sign]; split <;> simp [plain, spelling]

/-- The first piece and what follows it make up the text. -/
theorem spelling_append_next (c : Char) (rest : List Char) :
    (next c rest).1.spelling ++ (next c rest).2 = c :: rest := by
  have other_append : ∀ rest, (other c rest).1.spelling ++ (other c rest).2 = c :: rest := by
    intro rest
    rw [other]
    repeat' split
    · exact spelling_append_number c rest
    · exact spelling_append_word c rest
    · exact spelling_append_string c rest
    · exact spelling_append_sign c rest
  rw [next.eq_def]
  split
  · rfl
  · split
    · exact other_append []
    · split
      · exact spelling_append_cell ..
      · exact other_append _

/-- No piece is empty. -/
theorem spelling_next_ne_nil (c : Char) (rest : List Char) : (next c rest).1.spelling ≠ [] := by
  have other_ne : ∀ rest, (other c rest).1.spelling ≠ [] := by
    intro rest
    rw [other]
    repeat' split
    · rw [number]
      split <;> simp [plain, spelling]
    · simp [word, plain, spelling]
    · rw [string]
      split <;> simp [spelling]
    · rw [sign.eq_def]
      repeat' split
      all_goals simp [plain, spelling]
  rw [next.eq_def]
  split
  · simp [spelling]
  · split
    · exact other_ne []
    · split
      · simp [cell, plain, spelling]
      · exact other_ne _

/-- What follows the first piece is shorter than the text. -/
theorem length_next_le (c : Char) (rest : List Char) : (next c rest).2.length ≤ rest.length := by
  have h := congrArg List.length (spelling_append_next c rest)
  have hpos := List.length_pos_iff.mpr (spelling_next_ne_nil c rest)
  rw [List.length_append, List.length_cons] at h
  omega

end Piece

/-- The pieces of a text, at most `room` of them. -/
def piecesWithin : Nat → List Char → List Piece
  | 0, _ => []
  | _ + 1, [] => []
  | room + 1, c :: rest => (Piece.next c rest).1 :: piecesWithin room (Piece.next c rest).2

/-- The pieces of a text. No piece is empty, so there are no more of them than characters. -/
def pieces (text : List Char) : List Piece := piecesWithin text.length text

/-- With room for every character, the pieces make up the text. -/
theorem flatMap_piecesWithin {room : Nat} {text : List Char} (h : text.length ≤ room) :
    (piecesWithin room text).flatMap Piece.spelling = text := by
  induction room generalizing text with
  | zero => rw [List.length_eq_zero_iff.mp (by omega : text.length = 0)]; rfl
  | succ room ih =>
    cases text with
    | nil => rfl
    | cons c rest =>
      have hle := Piece.length_next_le c rest
      rw [List.length_cons] at h
      rw [piecesWithin, List.flatMap_cons, ih (by omega), Piece.spelling_append_next]

/-- **Nothing is lost.** The pieces of a text make it up. -/
theorem flatMap_pieces (text : List Char) : (pieces text).flatMap Piece.spelling = text :=
  flatMap_piecesWithin (Nat.le_refl _)

/-- The tokens of pieces that start at a line and offset, and the end of input behind them. -/
def place (line offset : Nat) : List Piece → List Token
  | [] => [⟨.endOfInput, "", line, offset⟩]
  | piece :: rest =>
    let later := place (line + piece.spelling.count '\n') (offset + piece.spelling.length) rest
    match piece with
    | .blank _ => later
    | .lexeme kind text _ => ⟨kind, String.ofList text, line, offset⟩ :: later

/-- The tokens of a source text. -/
def scan (source : String) : List Token := place 1 0 (pieces source.toList)

end Token

end RegisterRules
