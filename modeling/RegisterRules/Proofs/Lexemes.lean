import RegisterRules.Procedure.Expr
import RegisterRules.Proofs.NumberText
import RegisterRules.Proofs.TextLiteral

/-!
# The lexemes of an expression

The text of an expression of generated code is a sequence of lexemes: names, literals, signs and
operators. Brackets that the order of the operators needs are lexemes like those that stand in the
expression, so they are put into the expression first (`withBrackets`), and from then on a text and
its expression say the same.

The sequence can be read off the text. A lexeme is known by its first characters, and the only ones
without an end of their own, names and literals, are followed by a character that they cannot hold.

## Main definitions

* `Procedure.IsName`: the names.
* `Procedure.Expr.Plain`: the expressions with names only and without brackets missing before a
  method.
* `Procedure.Expr.withBrackets`, `Procedure.Expr.Bracketed`: brackets wherever they are needed.
* `Procedure.Lexeme`, `Procedure.Expr.lexemes`: the lexemes of an expression with brackets.
* `Procedure.Lexeme.first?`: the first lexeme of a text.

## Main results

* `Procedure.Expr.chars_eq`: the text of an expression is the text of its lexemes.
* `Procedure.spell_inj`: the text determines the lexemes.
-/

namespace RegisterRules

/-! ### Text literals -/

namespace Value

/-- The character that stands behind a backslash in a text literal, as it is meant. -/
def unescaped (c : Char) : Char :=
  if c = 'n' then '\n' else if c = 'r' then '\r' else if c = 't' then '\t' else c

/-- The text of a literal behind its opening quote, and what follows the closing one. -/
def unquoted : List Char → List Char × List Char
  | [] => ([], [])
  | '"' :: rest => ([], rest)
  | '\\' :: c :: rest => (unescaped c :: (unquoted rest).1, (unquoted rest).2)
  | c :: rest => (c :: (unquoted rest).1, (unquoted rest).2)

theorem unescaped_of_meant? {c d : Char} (h : meant? c = some d) : unescaped c = d := by
  grind [meant?, unescaped]

/-- Where a literal is closed and its escapes have a meaning, it is read as it is meant. -/
theorem unquoted_of_readQuoted? {escaping : Bool} {body chars rest : List Char}
    (h : readQuoted? escaping body = some (chars, rest)) :
    unquoted (if escaping then '\\' :: body else body) = (chars, rest) := by
  fun_induction readQuoted? escaping body generalizing chars rest with
  | case1 => simp at h
  | case2 c behind ih =>
    obtain ⟨meant, hmeant, h⟩ := Option.bind_eq_some_iff.mp h
    obtain ⟨⟨chars', rest'⟩, hread, h⟩ := Option.map_eq_some_iff.mp h
    obtain ⟨rfl, rfl⟩ := Prod.mk.inj h
    have hrest : unquoted behind = (chars', rest') := by simpa using ih hread
    simp [unquoted, unescaped_of_meant? hmeant, hrest]
  | case3 behind =>
    obtain ⟨rfl, rfl⟩ := Prod.mk.inj (Option.some.inj h)
    rfl
  | case4 behind hquote ih => simpa using ih h
  | case5 c behind hquote hbackslash ih =>
    obtain ⟨⟨chars', rest'⟩, hread, h⟩ := Option.map_eq_some_iff.mp h
    obtain ⟨rfl, rfl⟩ := Prod.mk.inj h
    have hrest : unquoted behind = (chars', rest') := by simpa using ih hread
    simp [unquoted, hbackslash, hrest]

/-- A text literal gives its text back and ends where it ends. -/
theorem unquoted_flatMap_escaped (text rest : List Char) :
    unquoted (text.flatMap escaped ++ '"' :: rest) = (text, rest) :=
  unquoted_of_readQuoted? (readQuoted?_flatMap_escaped text rest)

end Value

namespace Procedure

/-! ### Names and plain expressions -/

/-- The words that are no names. -/
def reserved : List String := ["null", "true", "false", "new"]

/-- What an expression is put together with, besides names and literals. -/
def separators : List Char :=
  [' ', '"', '(', ')', '.', ',', '!', '=', '<', '>', '|', '&', '+', '-', '*', '/', '%']

/-- A word: not empty, with no digit in front and no separator in it. -/
structure IsWord (word : String) : Prop where
  nonempty : word.toList ≠ []
  start : ∀ c ∈ word.toList.head?, c.isDigit = false
  parts : ∀ c ∈ word.toList, c ∉ separators

instance (word : String) : Decidable (IsWord word) :=
  decidable_of_iff (word.toList ≠ [] ∧ word.toList.head?.all (fun c => !c.isDigit) = true ∧
      word.toList.all (fun c => decide (c ∉ separators)) = true) <| by
    simp only [List.all_eq_true, Option.all_eq_true, Bool.not_eq_true', decide_eq_true_eq]
    exact ⟨fun ⟨nonempty, start, parts⟩ => ⟨nonempty, start, parts⟩,
      fun h => ⟨h.nonempty, h.start, h.parts⟩⟩

/-- A name: a word that is not reserved. -/
structure IsName (name : String) : Prop extends IsWord name where
  unreserved : name ∉ reserved

instance (name : String) : Decidable (IsName name) :=
  decidable_of_iff (IsWord name ∧ name ∉ reserved)
    ⟨fun h => ⟨h.1, h.2⟩, fun h => ⟨h.toIsWord, h.unreserved⟩⟩

namespace Expr

/-- Whether a method may be called on an expression as it stands. -/
def isReceiver : Expr → Bool
  | .var _ | .call .. | .invoke .. | .group _ => true
  | _ => false

/-- The expressions of the thirteen operators that are built with names, and in which methods are
called on variables, calls and groups. -/
inductive Plain : Expr → Prop
  | literal (value : Value) : Plain (.literal value)
  | var {name : String} (named : IsName name) : Plain (.var name)
  | call {function : String} {args : List Expr} (named : IsName function)
      (each : ∀ arg ∈ args, Plain arg) : Plain (.call function args)
  | invoke {receiver : Expr} {method : String} {args : List Expr}
      (callable : receiver.isReceiver = true) (on : Plain receiver) (named : IsName method)
      (each : ∀ arg ∈ args, Plain arg) : Plain (.invoke receiver method args)
  | create {type : String} (named : IsName type) : Plain (.create type)
  | lambda {param : String} {body : Expr} (named : IsName param) (inside : Plain body) :
      Plain (.lambda param body)
  | binary {left right : Expr} {op : Infix} (first : Plain left) (known : op ∈ Infix.known)
      (last : Plain right) : Plain (.binary left op right)
  | group {inner : Expr} (inside : Plain inner) : Plain (.group inner)
  | not {inner : Expr} (inside : Plain inner) : Plain (.not inner)

/-- The plain expressions that have brackets wherever the order of the operators needs them. -/
inductive Bracketed : Expr → Prop
  | literal (value : Value) : Bracketed (.literal value)
  | var {name : String} (named : IsName name) : Bracketed (.var name)
  | call {function : String} {args : List Expr} (named : IsName function)
      (each : ∀ arg ∈ args, Bracketed arg) : Bracketed (.call function args)
  | invoke {receiver : Expr} {method : String} {args : List Expr}
      (callable : receiver.isReceiver = true) (on : Bracketed receiver) (named : IsName method)
      (each : ∀ arg ∈ args, Bracketed arg) : Bracketed (.invoke receiver method args)
  | create {type : String} (named : IsName type) : Bracketed (.create type)
  | lambda {param : String} {body : Expr} (named : IsName param) (inside : Bracketed body) :
      Bracketed (.lambda param body)
  | binary {left right : Expr} {op : Infix} (first : Bracketed left)
      (tight : left.needsGroup (· < op.strength) = false) (known : op ∈ Infix.known)
      (last : Bracketed right) (tighter : right.needsGroup (· ≤ op.strength) = false) :
      Bracketed (.binary left op right)
  | group {inner : Expr} (inside : Bracketed inner) : Bracketed (.group inner)
  | not {inner : Expr} (inside : Bracketed inner) (closed : inner.isOpen = false) :
      Bracketed (.not inner)

/-! ### Brackets in the expression -/

/-- An expression in brackets if it has to be. -/
def bracketIf (needed : Bool) (e : Expr) : Expr := if needed then .group e else e

mutual

/-- An expression with brackets wherever the order of the operators needs them. -/
def withBrackets : Expr → Expr
  | .literal value => .literal value
  | .var name => .var name
  | .call function args => .call function (allWithBrackets args)
  | .invoke receiver method args => .invoke receiver.withBrackets method (allWithBrackets args)
  | .create type => .create type
  | .lambda param body => .lambda param body.withBrackets
  | .binary left op right =>
    .binary (bracketIf (left.needsGroup (· < op.strength)) left.withBrackets) op
      (bracketIf (right.needsGroup (· ≤ op.strength)) right.withBrackets)
  | .group inner => .group inner.withBrackets
  | .not inner => .not (bracketIf inner.isOpen inner.withBrackets)

/-- The same for each of several expressions. -/
def allWithBrackets : List Expr → List Expr
  | [] => []
  | arg :: args => arg.withBrackets :: allWithBrackets args

end

mutual

/-- An expression without its brackets: all groups are left out. -/
def erase : Expr → Expr
  | .literal value => .literal value
  | .var name => .var name
  | .call function args => .call function (eraseAll args)
  | .invoke receiver method args => .invoke receiver.erase method (eraseAll args)
  | .create type => .create type
  | .lambda param body => .lambda param body.erase
  | .binary left op right => .binary left.erase op right.erase
  | .group inner => inner.erase
  | .not inner => .not inner.erase

/-- The same for each of several expressions. -/
def eraseAll : List Expr → List Expr
  | [] => []
  | arg :: args => arg.erase :: eraseAll args

end

theorem allWithBrackets_eq_map (args : List Expr) :
    allWithBrackets args = args.map withBrackets := by
  induction args with
  | nil => rfl
  | cons arg args ih => rw [allWithBrackets, ih, List.map_cons]

theorem eraseAll_eq_map (args : List Expr) : eraseAll args = args.map erase := by
  induction args with
  | nil => rfl
  | cons arg args ih => rw [eraseAll, ih, List.map_cons]

@[simp] theorem erase_bracketIf (needed : Bool) (e : Expr) :
    (bracketIf needed e).erase = e.erase := by
  cases needed <;> rfl

@[simp] theorem isReceiver_withBrackets (e : Expr) : e.withBrackets.isReceiver = e.isReceiver := by
  cases e <;> rfl

@[simp] theorem needsGroup_withBrackets (tooLoose : ℕ → Bool) (e : Expr) :
    e.withBrackets.needsGroup tooLoose = e.needsGroup tooLoose := by
  cases e <;> rfl

@[simp] theorem isOpen_withBrackets (e : Expr) : e.withBrackets.isOpen = e.isOpen := by
  cases e <;> rfl

/-- Brackets where they are needed are the only change. -/
theorem Plain.erase_withBrackets {e : Expr} (h : Plain e) : e.withBrackets.erase = e.erase := by
  have hall : ∀ {args : List Expr}, (∀ arg ∈ args, arg.withBrackets.erase = arg.erase) →
      eraseAll (allWithBrackets args) = eraseAll args := by
    intro args heach
    rw [allWithBrackets_eq_map, eraseAll_eq_map, eraseAll_eq_map, List.map_map]
    exact List.map_congr_left heach
  induction h with
  | literal => rfl
  | var => rfl
  | call _ _ ih => rw [withBrackets, erase, erase, hall ih]
  | invoke _ _ _ _ ihreceiver ih => rw [withBrackets, erase, erase, ihreceiver, hall ih]
  | create => rfl
  | lambda _ _ ih => rw [withBrackets, erase, erase, ih]
  | binary _ _ _ ihleft ihright =>
    rw [withBrackets, erase, erase, erase_bracketIf, erase_bracketIf, ihleft, ihright]
  | group _ ih => rw [withBrackets, erase, erase, ih]
  | not _ ih => rw [withBrackets, erase, erase, erase_bracketIf, ih]

theorem Bracketed.bracketIf {e : Expr} (h : Bracketed e) (needed : Bool) :
    Bracketed (bracketIf needed e) := by
  cases needed with
  | false => exact h
  | true => exact .group h

theorem Plain.bracketed {e : Expr} (h : Plain e) : Bracketed e.withBrackets := by
  have hall : ∀ {args : List Expr}, (∀ arg ∈ args, Bracketed arg.withBrackets) →
      ∀ arg ∈ allWithBrackets args, Bracketed arg := by
    intro args heach
    rw [allWithBrackets_eq_map]
    exact List.forall_mem_map.mpr heach
  -- an operand in brackets needs no more of them
  have hneeds : ∀ (e : Expr) (tooLoose : ℕ → Bool),
      (Expr.bracketIf (e.needsGroup tooLoose) e.withBrackets).needsGroup tooLoose = false := by
    intro e tooLoose
    rcases hneeded : e.needsGroup tooLoose with - | -
    · simpa [Expr.bracketIf] using hneeded
    · rfl
  induction h with
  | literal value => exact .literal value
  | var hname => exact .var hname
  | call hname _ ih => exact .call hname (hall ih)
  | invoke hreceiver _ hname _ ihreceiver ih =>
    exact .invoke (by simpa using hreceiver) ihreceiver hname (hall ih)
  | create hname => exact .create hname
  | lambda hname _ ih => exact .lambda hname ih
  | binary _ hknown _ ihleft ihright =>
    exact .binary (ihleft.bracketIf _) (hneeds _ _) hknown (ihright.bracketIf _) (hneeds _ _)
  | group _ ih => exact .group ih
  | @not inner _ ih =>
    refine .not (ih.bracketIf _) ?_
    rcases hopen : inner.isOpen with - | -
    · simpa [Expr.bracketIf] using hopen
    · rfl

end Expr

/-! ### Lexemes -/

/-- A lexeme of an expression. -/
inductive Lexeme where
  | literal (value : Value)
  | word (name : String)
  /-- The word in front of a type. -/
  | new
  /-- The sign of a negation. -/
  | bang
  | dot
  | comma
  /-- The sign between the parameter of a lambda and its body. -/
  | arrow
  | opening
  | closing
  | operator (op : Infix)
deriving DecidableEq

namespace Lexeme

/-- The text of a lexeme, with the spaces around it. -/
def text : Lexeme → List Char
  | .literal value => value.literal.toList
  | .word name => name.toList
  | .new => ['n', 'e', 'w', ' ']
  | .bang => ['!']
  | .dot => ['.']
  | .comma => [',', ' ']
  | .arrow => [' ', '=', '>', ' ']
  | .opening => ['(']
  | .closing => [')']
  | .operator op => ' ' :: (op.symbol.toList ++ [' '])

end Lexeme

/-- The text of a sequence of lexemes. -/
def spell (lexemes : List Lexeme) : List Char := lexemes.flatMap Lexeme.text

@[simp] theorem spell_nil : spell [] = [] := rfl

@[simp] theorem spell_cons (a : Lexeme) (rest : List Lexeme) :
    spell (a :: rest) = a.text ++ spell rest := rfl

@[simp] theorem spell_append (before after : List Lexeme) :
    spell (before ++ after) = spell before ++ spell after := List.flatMap_append

namespace Expr

mutual

/-- The lexemes of an expression. No bracket is put in. -/
def lexemes : Expr → List Lexeme
  | .literal value => [.literal value]
  | .var name => [.word name]
  | .call function args => .word function :: .opening :: (argLexemes args ++ [.closing])
  | .invoke receiver method args =>
    lexemes receiver ++ .dot :: .word method :: .opening :: (argLexemes args ++ [.closing])
  | .create type => [.new, .word type, .opening, .closing]
  | .lambda param body => .word param :: .arrow :: lexemes body
  | .binary left op right => lexemes left ++ .operator op :: lexemes right
  | .group inner => .opening :: (lexemes inner ++ [.closing])
  | .not inner => .bang :: lexemes inner

/-- The lexemes of arguments, with commas between them. -/
def argLexemes : List Expr → List Lexeme
  | [] => []
  | arg :: args => lexemes arg ++ moreArgLexemes args

/-- The lexemes of the arguments after the first, each with the comma before it. -/
def moreArgLexemes : List Expr → List Lexeme
  | [] => []
  | arg :: args => .comma :: (lexemes arg ++ moreArgLexemes args)

end

theorem grouped_eq (needed : Bool) {e : Expr} {text : List Char → List Char}
    (h : ∀ tail, text tail = spell e.lexemes ++ tail) (tail : List Char) :
    grouped needed text tail = spell (bracketIf needed e).lexemes ++ tail := by
  cases needed with
  | false => simp [grouped, bracketIf, h]
  | true => simp [grouped, bracketIf, h, lexemes, Lexeme.text]

mutual

/-- **The text of an expression is the text of its lexemes**, brackets put in. -/
theorem chars_eq : ∀ (e : Expr) (tail : List Char),
    e.chars tail = spell e.withBrackets.lexemes ++ tail
  | .literal value, tail => by simp [chars, withBrackets, lexemes, Lexeme.text]
  | .var name, tail => by simp [chars, withBrackets, lexemes, Lexeme.text]
  | .call function args, tail => by
    simp [chars, withBrackets, lexemes, Lexeme.text, argChars_eq args]
  | .invoke receiver method args, tail => by
    simp [chars, withBrackets, lexemes, Lexeme.text, chars_eq receiver, argChars_eq args]
  | .create type, tail => by simp [chars, withBrackets, lexemes, Lexeme.text]
  | .lambda param body, tail => by
    simp [chars, withBrackets, lexemes, Lexeme.text, chars_eq body]
  | .binary left op right, tail => by
    simp [chars, withBrackets, lexemes, Lexeme.text, grouped_eq _ (chars_eq left),
      grouped_eq _ (chars_eq right)]
  | .group inner, tail => by
    simp [chars, withBrackets, lexemes, Lexeme.text, grouped, chars_eq inner]
  | .not inner, tail => by
    simp [chars, withBrackets, lexemes, Lexeme.text, grouped_eq _ (chars_eq inner)]

theorem argChars_eq : ∀ (args : List Expr) (tail : List Char),
    argChars args tail = spell (argLexemes (allWithBrackets args)) ++ tail
  | [], tail => by simp [argChars, allWithBrackets, argLexemes]
  | arg :: args, tail => by
    simp [argChars, allWithBrackets, argLexemes, chars_eq arg, moreArgChars_eq args]

theorem moreArgChars_eq : ∀ (args : List Expr) (tail : List Char),
    moreArgChars args tail = spell (moreArgLexemes (allWithBrackets args)) ++ tail
  | [], tail => by simp [moreArgChars, allWithBrackets, moreArgLexemes]
  | arg :: args, tail => by
    simp [moreArgChars, allWithBrackets, moreArgLexemes, Lexeme.text, chars_eq arg,
      moreArgChars_eq args]

end

end Expr

/-! ### From the text to the lexemes -/

namespace Lexeme

/-- The lexeme of a word: a literal, the word in front of a type, or a name. -/
def ofWord (word : String) : Lexeme :=
  if word = "null" then .literal .null
  else if word = "true" then .literal (.bool true)
  else if word = "false" then .literal (.bool false)
  else if word = "new" then .new
  else .word word

/-- The lexeme of what stands between two spaces. -/
def ofSymbol (symbol : String) : Lexeme :=
  if symbol = "=>" then .arrow else .operator (Infix.ofSymbol symbol)

/-- The characters that may follow a literal. -/
def literalEnds : List Char := [' ', ',', ')']

/-- The characters that may follow a name. -/
def nameEnds : List Char := [' ', ',', ')', '(', '.']

/-- The first lexeme of a text. -/
def first? : List Char → Option Lexeme
  | [] => none
  | '!' :: _ => some .bang
  | '.' :: _ => some .dot
  | ',' :: _ => some .comma
  | '(' :: _ => some .opening
  | ')' :: _ => some .closing
  | ' ' :: rest => some (ofSymbol (String.ofList (rest.takeWhile (· ≠ ' '))))
  | '"' :: rest => some (.literal (.text (String.ofList (Value.unquoted rest).1)))
  | c :: rest =>
    if c.isDigit ∨ c = '-' then
      (Numeral.read? ((c :: rest).takeWhile (· ∉ literalEnds))).map (.literal ∘ .number)
    else some (ofWord (String.ofList ((c :: rest).takeWhile (· ∉ nameEnds))))

/-- What a lexeme of an expression is: its words are names and its operators are known. -/
def Valid : Lexeme → Prop
  | .word name => IsName name
  | .operator op => op ∈ Infix.known
  | _ => True

/-- A text may follow a lexeme: names and literals need a character that ends them. -/
def Stops : Lexeme → List Char → Prop
  | .word _, rest => ∀ c ∈ rest.head?, c ∈ nameEnds
  | .literal _, rest => ∀ c ∈ rest.head?, c ∈ literalEnds
  | _, _ => True

theorem first?_cons {c : Char} (h : c ∉ ['!', '.', ',', '(', ')', ' ', '"']) (rest : List Char) :
    first? (c :: rest) =
      if c.isDigit ∨ c = '-' then
        (Numeral.read? ((c :: rest).takeWhile (· ∉ literalEnds))).map (.literal ∘ .number)
      else some (ofWord (String.ofList ((c :: rest).takeWhile (· ∉ nameEnds)))) := by
  simp only [List.mem_cons, List.not_mem_nil, or_false, not_or] at h
  obtain ⟨hbang, hdot, hcomma, hopening, hclosing, hspace, hquote⟩ := h
  rw [first?]
  all_goals assumption

/-- A word that a separator or the end of the text follows. -/
theorem first?_word {word : String} (hword : IsWord word) {rest : List Char}
    (hrest : ∀ c ∈ rest.head?, c ∈ nameEnds) :
    first? (word.toList ++ rest) = some (ofWord word) := by
  obtain ⟨hne, hstart, hparts⟩ := hword
  obtain ⟨c, more, hcons⟩ := List.exists_cons_of_ne_nil hne
  have hc := hparts c (by simp [hcons])
  have hends : ∀ c ∈ nameEnds, c ∈ separators := by simp [nameEnds, separators]
  have hsigns : c ∉ ['!', '.', ',', '(', ')', ' ', '"'] := by
    have hsub : ∀ c ∈ ['!', '.', ',', '(', ')', ' ', '"'], c ∈ separators := by simp [separators]
    exact fun hmem => hc (hsub c hmem)
  have hminus : ¬ (c.isDigit ∨ c = '-') := by
    rintro (hdigit | rfl)
    · rw [hstart c (by simp [hcons])] at hdigit
      cases hdigit
    · exact hc (by simp [separators])
  have htake : (word.toList ++ rest).takeWhile (· ∉ nameEnds) = word.toList := by
    refine Text.takeWhile_append_stop (fun c hmem => ?_) fun c hmem => ?_
    · simpa using fun hend => hparts c hmem (hends c hend)
    · simpa using hrest c hmem
  rw [hcons, List.cons_append] at htake ⊢
  rw [first?_cons hsigns, if_neg hminus, htake, ← hcons, String.ofList_toList]

/-- The text of a number that a separator or the end of the text follows. -/
theorem first?_number (x : Binary64) {rest : List Char}
    (hrest : ∀ c ∈ rest.head?, c ∈ literalEnds) :
    first? ((x.text .positional).toList ++ rest) = some (.literal (.number x)) := by
  have hread := x.read?_text
  obtain ⟨whole, fraction, htext, hne, hwhole, hfraction, -⟩ := x.exists_digits
  have hparts : ∀ c ∈ (x.text .positional).toList, c = '-' ∨ c = '.' ∨ c.isDigit = true := by
    rw [htext, Number.pointed]
    intro c hc
    grind
  obtain ⟨c, more, hcons, hstart⟩ : ∃ c more, (x.text .positional).toList = c :: more ∧
      (c.isDigit = true ∨ c = '-') := by
    obtain ⟨d, digits, rfl⟩ := List.exists_cons_of_ne_nil hne
    rw [htext]
    rcases x.negative with - | -
    · exact ⟨_, _, rfl, .inl (hwhole d List.mem_cons_self)⟩
    · exact ⟨_, _, rfl, .inr rfl⟩
  have hsigns : c ∉ ['!', '.', ',', '(', ')', ' ', '"'] := by
    intro hmem
    have hnone : ∀ c ∈ ['!', '.', ',', '(', ')', ' ', '"'], ¬ (c.isDigit = true ∨ c = '-') := by
      simp
    exact hnone c hmem hstart
  rw [hcons] at hparts hread ⊢
  rw [List.cons_append, first?_cons hsigns, if_pos hstart, ← List.cons_append,
    Text.takeWhile_append_stop, hread]
  · rfl
  · intro c hc
    have hnone : ∀ c ∈ literalEnds, ¬ (c = '-' ∨ c = '.' ∨ c.isDigit = true) := by
      simp [literalEnds]
    simpa using fun hend => hnone c hend (hparts c hc)
  · intro c hc
    simpa using hrest c hc

theorem ofSymbol_symbol {op : Infix} (h : op ∈ Infix.known) :
    ofSymbol op.symbol = .operator op := by
  have hall : ∀ op ∈ Infix.known, ofSymbol op.symbol = .operator op := by decide
  exact hall op h

theorem ofWord_name {name : String} (h : IsName name) : ofWord name = .word name := by
  have hne : ∀ word ∈ reserved, name ≠ word := fun word hword heq => h.unreserved (heq ▸ hword)
  rw [ofWord, if_neg (hne _ (by decide)), if_neg (hne _ (by decide)), if_neg (hne _ (by decide)),
    if_neg (hne _ (by decide))]

/-- **The text of a lexeme gives the lexeme back.** -/
theorem first?_text {a : Lexeme} (hvalid : a.Valid) {rest : List Char} (hrest : a.Stops rest) :
    first? (a.text ++ rest) = some a := by
  have hends : ∀ c ∈ literalEnds, c ∈ nameEnds := by simp [literalEnds, nameEnds]
  have hreserved : ∀ word ∈ reserved, IsWord word := by decide
  cases a with
  | literal value =>
    have hword : ∀ c ∈ rest.head?, c ∈ nameEnds := fun c hc => hends c (hrest c hc)
    cases value with
    | number x => exact first?_number x hrest
    | text s =>
      rw [text, Value.literal, String.toList_ofList, Value.quoted, List.cons_append,
        List.append_assoc, first?]
      simp [Value.unquoted_flatMap_escaped]
    | bool b =>
      cases b with
      | false => exact first?_word (hreserved "false" (by decide)) hword
      | true => exact first?_word (hreserved "true" (by decide)) hword
    | null => exact first?_word (hreserved "null" (by decide)) hword
  | word name =>
    rw [text, first?_word hvalid.toIsWord hrest, ofWord_name hvalid]
  | new =>
    have hspace : ∀ c ∈ (' ' :: rest).head?, c ∈ nameEnds := by simp [nameEnds]
    exact first?_word (hreserved "new" (by decide)) hspace
  | bang => rfl
  | dot => rfl
  | comma => rfl
  | arrow => rfl
  | opening => rfl
  | closing => rfl
  | operator op =>
    have hspace : ∀ op ∈ Infix.known, ' ' ∉ op.symbol.toList := by decide
    rw [text, List.cons_append, List.append_assoc, first?, Text.takeWhile_append_stop,
      String.ofList_toList, ofSymbol_symbol hvalid]
    · intro c hc
      have hne : c ≠ ' ' := fun heq => hspace op hvalid (heq ▸ hc)
      simpa using hne
    · simp

end Lexeme

/-- A sequence that can be read: each lexeme is one of an expression, and it ends where the next
one begins. -/
def Legible : List Lexeme → Prop
  | [] => True
  | a :: rest => a.Valid ∧ a.Stops (spell rest) ∧ Legible rest

theorem Legible.first?_spell {a : Lexeme} {rest : List Lexeme} (h : Legible (a :: rest)) :
    Lexeme.first? (spell (a :: rest)) = some a :=
  Lexeme.first?_text h.1 h.2.1

/-- **The text determines the lexemes.** -/
theorem spell_inj {before after : List Lexeme} (hbefore : Legible before) (hafter : Legible after)
    (h : spell before = spell after) : before = after := by
  induction before generalizing after with
  | nil =>
    cases after with
    | nil => rfl
    | cons b after =>
      have hfirst := hafter.first?_spell
      rw [← h] at hfirst
      cases hfirst
  | cons a before ih =>
    have hfirst := hbefore.first?_spell
    cases after with
    | nil =>
      rw [h] at hfirst
      cases hfirst
    | cons b after =>
      rw [h, hafter.first?_spell] at hfirst
      obtain rfl : b = a := Option.some.inj hfirst
      rw [ih hbefore.2.2 hafter.2.2 (List.append_cancel_left h)]

namespace Expr

open Lexeme

/-- The characters that may follow an expression; a point may follow where methods are called. -/
def ends (e : Expr) : List Char := if e.isReceiver then '.' :: literalEnds else literalEnds

theorem mem_ends {c : Char} (h : c ∈ literalEnds) (e : Expr) : c ∈ e.ends := by
  rw [ends]
  split
  · exact List.mem_cons_of_mem _ h
  · exact h

theorem ends_subset_nameEnds (e : Expr) : ∀ c ∈ e.ends, c ∈ nameEnds := by
  have hreceiver : ∀ c ∈ '.' :: literalEnds, c ∈ nameEnds := by simp [literalEnds, nameEnds]
  intro c hc
  rw [ends] at hc
  split at hc
  · exact hreceiver c hc
  · exact hreceiver c (List.mem_cons_of_mem _ hc)

/-- The lexemes of an expression can be read in front of a tail. -/
def ReadsBefore (e : Expr) : Prop :=
  ∀ tail, Legible tail → (∀ c ∈ (spell tail).head?, c ∈ e.ends) → Legible (e.lexemes ++ tail)

theorem legible_moreArgLexemes {args : List Expr} (heach : ∀ arg ∈ args, ReadsBefore arg)
    {tail : List Lexeme} (htail : Legible tail)
    (hends : ∀ c ∈ (spell tail).head?, c ∈ literalEnds) :
    Legible (moreArgLexemes args ++ tail) ∧
      ∀ c ∈ (spell (moreArgLexemes args ++ tail)).head?, c ∈ literalEnds := by
  induction args with
  | nil => exact ⟨htail, hends⟩
  | cons arg args ih =>
    obtain ⟨harg, hargs⟩ := List.forall_mem_cons.mp heach
    obtain ⟨hlegible, hhead⟩ := ih hargs
    rw [moreArgLexemes, List.cons_append, List.append_assoc]
    refine ⟨⟨trivial, trivial, harg _ hlegible fun c hc => mem_ends (hhead c hc) arg⟩, ?_⟩
    simp [Lexeme.text, literalEnds]

theorem legible_argLexemes {args : List Expr} (heach : ∀ arg ∈ args, ReadsBefore arg)
    {tail : List Lexeme} (htail : Legible tail) :
    Legible (argLexemes args ++ .closing :: tail) := by
  have hclosing : Legible (.closing :: tail) := ⟨trivial, trivial, htail⟩
  have hends : ∀ c ∈ (spell (.closing :: tail)).head?, c ∈ literalEnds := by
    simp [Lexeme.text, literalEnds]
  cases args with
  | nil => exact hclosing
  | cons arg args =>
    obtain ⟨harg, hargs⟩ := List.forall_mem_cons.mp heach
    obtain ⟨hlegible, hhead⟩ := legible_moreArgLexemes hargs hclosing hends
    rw [argLexemes, List.append_assoc]
    exact harg _ hlegible fun c hc => mem_ends (hhead c hc) arg

/-- A name with its arguments. -/
theorem legible_application {name : String} (hname : IsName name) {args : List Expr}
    (heach : ∀ arg ∈ args, ReadsBefore arg) {tail : List Lexeme} (htail : Legible tail) :
    Legible (.word name :: .opening :: (argLexemes args ++ [.closing]) ++ tail) := by
  have hargs := legible_argLexemes heach htail
  rw [List.cons_append, List.cons_append, List.append_assoc]
  refine ⟨hname, ?_, trivial, trivial, hargs⟩
  simp [Lexeme.text, Lexeme.Stops, nameEnds]

theorem Bracketed.readsBefore {e : Expr} (h : Bracketed e) : ReadsBefore e := by
  induction h with
  | literal value => exact fun tail htail hends => ⟨trivial, hends, htail⟩
  | var hname =>
    exact fun tail htail hends =>
      ⟨hname, fun c hc => ends_subset_nameEnds _ c (hends c hc), htail⟩
  | call hname _ ih => exact fun tail htail _ => legible_application hname ih htail
  | @invoke receiver method args hreceiver _ hname _ ihreceiver ih =>
    intro tail htail _
    rw [lexemes, List.append_assoc]
    refine ihreceiver _ ⟨trivial, trivial, legible_application hname ih htail⟩ ?_
    simp [Lexeme.text, ends, hreceiver]
  | create hname =>
    intro tail htail _
    refine ⟨trivial, trivial, hname, ?_, trivial, trivial, trivial, trivial, htail⟩
    simp [Lexeme.text, Lexeme.Stops, nameEnds]
  | @lambda param body hname _ ih =>
    intro tail htail hends
    refine ⟨hname, ?_, trivial, trivial, ih tail htail fun c hc => mem_ends (hends c hc) body⟩
    simp [Lexeme.text, Lexeme.Stops, nameEnds]
  | @binary left right op _ _ hknown _ _ ihleft ihright =>
    intro tail htail hends
    have hspace : ' ' ∈ left.ends := mem_ends (by decide) left
    rw [lexemes, List.append_assoc]
    refine ihleft _ ⟨hknown, trivial, ihright tail htail fun c hc => mem_ends (hends c hc) right⟩ ?_
    simpa [Lexeme.text] using hspace
  | @group inner _ ih =>
    intro tail htail _
    have hclosing : ')' ∈ inner.ends := mem_ends (by decide) inner
    rw [lexemes, List.cons_append, List.append_assoc]
    refine ⟨trivial, trivial, ih _ ⟨trivial, trivial, htail⟩ ?_⟩
    simpa [Lexeme.text] using hclosing
  | @not inner _ _ ih =>
    intro tail htail hends
    exact ⟨trivial, trivial, ih tail htail fun c hc => mem_ends (hends c hc) inner⟩

/-- **The text of a plain expression determines the lexemes**, brackets put in. -/
theorem Plain.lexemes_eq {e f : Expr} (he : Plain e) (hf : Plain f) (h : e.render = f.render) :
    e.withBrackets.lexemes = f.withBrackets.lexemes := by
  have hlegible : ∀ {e : Expr}, Plain e → Legible e.withBrackets.lexemes := by
    intro e he
    simpa using he.bracketed.readsBefore [] trivial (by simp)
  have hchars : e.chars [] = f.chars [] := String.ofList_injective h
  rw [chars_eq, chars_eq, List.append_nil, List.append_nil] at hchars
  exact spell_inj (hlegible he) (hlegible hf) hchars

end Expr

end Procedure

end RegisterRules
