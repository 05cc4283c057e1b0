import RegisterRules.Proofs.Lookahead
import RegisterRules.Proofs.Relexing

/-!
# The parser does not look at places

A token has a kind, a text and a place, and a parser asks only for the first two. Where the places
go is into the tokens that it hands back: those that are left over, and the one at fault.

## The invariant

A parser is `Placeless` on some tokens if it may as well forget the places first: then it returns
the same, with the places forgotten in what it hands back. The statement is closed under doing one
parser after the other, and like lookahead it may be shown for each first token apart. Forgetting
the places leaves the number of tokens as it is, so a loop has the same room.

## Main definitions

* `Token.placeless`: a token without its place.
* `Phrase.Grammar.Placeless`: forgetting the places first makes no difference to a parser.

## Main results

* `Phrase.Grammar.placeless_parse`: both ladders do not look at places.
* `Phrase.Grammar.placeless_statement`: neither do rules.
* `Phrase.parse_of_marks_eq`: tokens that differ in their places only are the same rule, or none for
  the same reason.
-/

namespace RegisterRules

namespace Token

/-- A token without its place. -/
def placeless (t : Token) : Token := ⟨t.kind, t.text, 0, 0⟩

@[simp] theorem kind_placeless (t : Token) : t.placeless.kind = t.kind := rfl

@[simp] theorem text_placeless (t : Token) : t.placeless.text = t.text := rfl

@[simp] theorem isCell_placeless (t : Token) : t.placeless.isCell = t.isCell := rfl

/-- Tokens with the same marks are the same without their places. -/
theorem map_placeless_eq {tokens tokens' : List Token} (h : tokens.map mark = tokens'.map mark) :
    tokens.map placeless = tokens'.map placeless := by
  have hfactor : placeless = (fun m : Kind × String => ⟨m.1, m.2, 0, 0⟩) ∘ mark := rfl
  rw [hfactor, ← List.map_map, ← List.map_map, h]

end Token

namespace Phrase

/-- A failure without the place of the token at fault. -/
def Parser.Failure.placeless (f : Parser.Failure) : Parser.Failure :=
  ⟨f.cause, f.found.map Token.placeless⟩

/-- The message about a failure does not give the place. -/
theorem Parser.Failure.message_placeless (f : Parser.Failure) :
    f.placeless.message = f.message := by
  rcases f with ⟨cause, - | t⟩ <;> rfl

namespace Grammar

open RegisterRules.Phrase.Parser

variable {α β : Type} {tokens rest : List Token} {t : Token}

/-- An outcome without the places of the tokens in it. -/
def forget : Outcome α → Outcome α
  | .error failure => .error failure.placeless
  | .ok (x, rest) => .ok (x, rest.map Token.placeless)

/-- On the given tokens, it makes no difference to a parser if their places are forgotten first. -/
def Placeless (parser : List Token → Outcome α) (tokens : List Token) : Prop :=
  parser (tokens.map Token.placeless) = forget (parser tokens)

theorem placeless_done (x : α) (tokens : List Token) : Placeless (done x) tokens := rfl

theorem placeless_fail (cause : Cause) (tokens : List Token) :
    Placeless (fail cause : List Token → Outcome α) tokens := by
  rw [Placeless, fail, fail, List.head?_map]
  rfl

/-- **One parser after the other does not look at places** if neither does. -/
theorem Placeless.andThen {first : List Token → Outcome α} {next : α → List Token → Outcome β}
    (hfirst : Placeless first tokens)
    (hnext : ∀ x rest, first tokens = .ok (x, rest) → Placeless (next x) rest) :
    Placeless (andThen first next) tokens := by
  rw [Placeless, Grammar.andThen, Grammar.andThen, hfirst]
  rcases houtcome : first tokens with failure | ⟨x, rest⟩
  · rfl
  · exact hnext x rest houtcome

/-- It is enough to know a parser behind a token and behind the same token without its place. -/
theorem Placeless.of_eq_cons {parser parser' : List Token → Outcome α}
    (h : Placeless parser' (t :: rest))
    (heq : ∀ rest, parser (t :: rest) = parser' (t :: rest))
    (heq' : ∀ rest, parser (t.placeless :: rest) = parser' (t.placeless :: rest)) :
    Placeless parser (t :: rest) := by
  rw [Placeless, List.map_cons, heq, heq']
  exact h

/-! ### Single tokens -/

theorem placeless_skip (kind : Token.Kind) (cause : Cause) (tokens : List Token) :
    Placeless (skip kind cause) tokens := by
  rcases tokens with - | ⟨t, rest⟩
  · rfl
  by_cases hkind : t.kind = kind
  · simp [Placeless, skip, expect, hkind, forget, Except.map]
  · simp [Placeless, skip, expect, hkind, forget, Except.map, Failure.placeless]

theorem placeless_cell (tokens : List Token) : Placeless Parser.cell tokens := by
  rcases tokens with - | ⟨t, rest⟩
  · rfl
  rw [Placeless, List.map_cons, Parser.cell, Parser.cell, Token.isCell_placeless,
    Token.text_placeless]
  split
  · rcases Cell.decode? t.text with - | c
    · exact placeless_fail .malformedCell (t :: rest)
    · rfl
  · exact placeless_fail .noCell (t :: rest)

/-! ### The two ladders -/

theorem placeless_brackets {parser : List Token → Outcome Phrase}
    (hparser : ∀ tokens, Placeless parser tokens) (tokens : List Token) :
    Placeless (andThen (skip .openParen .noOperand) fun _ =>
      andThen parser fun phrase => andThen (skip .closeParen .noClosing) fun _ => done phrase)
      tokens := by
  refine (placeless_skip _ _ _).andThen fun _ rest _ => ?_
  refine (hparser rest).andThen fun phrase rest _ => ?_
  exact (placeless_skip _ _ _).andThen fun _ rest _ => placeless_done phrase rest

theorem placeless_operand {inside : Option (List Token → Outcome Phrase)}
    (hinside : ∀ parser ∈ inside, ∀ tokens, Placeless parser tokens) (tokens : List Token) :
    Placeless (operand inside) tokens := by
  rcases tokens with - | ⟨t, rest⟩
  · rfl
  by_cases hmark : t.isCell = true
  · refine Placeless.of_eq_cons ?_ (operand_cell hmark) (operand_cell hmark)
    exact (placeless_cell _).andThen fun c rest _ => placeless_done (Phrase.cell c) rest
  rw [Bool.not_eq_true] at hmark
  have hfail : ∀ cause, forget (fail cause (t :: rest) : Outcome Phrase) =
      fail cause (t.placeless :: rest.map Token.placeless) :=
    fun cause => (placeless_fail cause (t :: rest)).symm
  by_cases hnumber : t.kind = .number
  · rcases hread : Numeral.read? t.text.toList with - | x
    · simp [Placeless, operand.eq_def, hmark, hnumber, hread, hfail]
    · simp [Placeless, operand.eq_def, hmark, hnumber, hread, forget]
  by_cases hstring : t.kind = .string
  · simp [Placeless, operand.eq_def, hmark, hstring, forget]
  by_cases hnothing : t.kind = .emptyWord
  · simp [Placeless, operand.eq_def, hmark, hnothing, forget]
  by_cases hopening : t.kind = .openParen
  · rcases inside with - | parser
    · simp [Placeless, operand.eq_def, hmark, hopening, hfail]
    · exact (placeless_brackets (hinside parser rfl) _).of_eq_cons (operand_openParen hopening)
        (operand_openParen hopening)
  · have hother : t.kind ∉ [Token.Kind.number, .string, .emptyWord, .openParen] := by
      simp [hnumber, hstring, hnothing, hopening]
    exact (placeless_fail .noOperand _).of_eq_cons (operand_other hmark hother)
      (operand_other hmark hother)

/-- A round of a loop hands on what the item hands back, and the room is the same. -/
theorem placeless_chainWithin {operator? : Token.Kind → Option Operator}
    {item : List Token → Outcome Phrase} (hitem : ∀ tokens, Placeless item tokens)
    (room : ℕ) (left : Phrase) (tokens : List Token) :
    Placeless (chainWithin operator? item room left) tokens := by
  induction room generalizing left tokens with
  | zero => rfl
  | succ room ih =>
    rcases tokens with - | ⟨t, rest⟩
    · rfl
    rw [Placeless, List.map_cons, chainWithin, chainWithin, Token.kind_placeless, hitem rest]
    rcases operator? t.kind with - | op
    · rfl
    rcases item rest with failure | ⟨right, behind⟩
    · rfl
    · exact ih (.binary left op right) behind

theorem placeless_chain {operator? : Token.Kind → Option Operator}
    {item : List Token → Outcome Phrase} (hitem : ∀ tokens, Placeless item tokens)
    (tokens : List Token) : Placeless (chain operator? item) tokens := by
  rw [Placeless, chain, chain, hitem tokens]
  rcases item tokens with failure | ⟨first, rest⟩
  · rfl
  · have hloop : Placeless (chainWithin operator? item rest.length first) rest :=
      placeless_chainWithin hitem _ _ _
    rw [Placeless] at hloop
    simp only [forget, List.length_map, hloop]

/-- Both ladders are climbed from their operands. -/
theorem placeless_of_operands {depth : ℕ}
    (hoperand : ∀ (ladder : Ladder) (tokens : List Token),
      Placeless (operand (ladder.inside depth)) tokens)
    (ladder : Ladder) (tokens : List Token) : Placeless (ladder.parse depth) tokens := by
  rw [ladder.parse_eq_top]
  cases ladder with
  | condition => exact placeless_chain (placeless_chain (placeless_chain (hoperand _))) tokens
  | amount => exact placeless_chain (placeless_chain (hoperand _)) tokens

/-- **No ladder looks at places**, however deep its brackets may be nested. -/
theorem placeless_parse (ladder : Ladder) (depth : ℕ) (tokens : List Token) :
    Placeless (ladder.parse depth) tokens := by
  induction depth generalizing ladder tokens with
  | zero =>
    refine placeless_of_operands (fun ladder tokens => placeless_operand ?_ tokens) ladder tokens
    rintro parser ⟨⟩
  | succ depth ih =>
    refine placeless_of_operands (fun ladder tokens => placeless_operand ?_ tokens) ladder tokens
    rintro parser ⟨⟩
    exact ih ladder

/-! ### Whole rules -/

theorem placeless_condition (tokens : List Token) : Placeless (condition maxDepth) tokens :=
  placeless_parse .condition maxDepth tokens

theorem placeless_amount (tokens : List Token) : Placeless (amount maxDepth) tokens :=
  placeless_parse .amount maxDepth tokens

theorem placeless_assignment (tokens : List Token) : Placeless Parser.assignment tokens := by
  rw [assignment_eq_andThen]
  refine (placeless_cell _).andThen fun target rest _ => ?_
  refine (placeless_skip _ _ _).andThen fun _ rest _ => ?_
  exact (placeless_amount _).andThen fun value rest _ => placeless_done (target, value) rest

theorem placeless_alternative (test : Phrase) (a : Cell × Phrase) (tokens : List Token) :
    Placeless (alternative test a) tokens := by
  rcases tokens with - | ⟨t, rest⟩
  · rfl
  by_cases helse : t.kind = .elseWord
  · refine Placeless.of_eq_cons ?_ (fun rest => if_pos helse) (fun rest => if_pos helse)
    refine (placeless_skip _ _ _).andThen fun _ rest _ => ?_
    exact (placeless_assignment _).andThen fun b rest _ =>
      placeless_done (Phrase.conditionalElse test a.1 a.2 b.1 b.2) rest
  · exact (placeless_done (Phrase.conditional test a.1 a.2) _).of_eq_cons
      (fun rest => if_neg helse) (fun rest => if_neg helse)

theorem placeless_conditional (tokens : List Token) : Placeless Parser.conditional tokens := by
  rw [conditional_eq_andThen]
  refine (placeless_condition _).andThen fun test rest _ => ?_
  refine (placeless_skip _ _ _).andThen fun _ rest _ => ?_
  rw [branches_eq_andThen]
  exact (placeless_assignment _).andThen fun a rest _ => placeless_alternative test a rest

theorem placeless_relation (target : Cell) (tokens : List Token) :
    Placeless (relation target) tokens := by
  rcases tokens with - | ⟨t, rest⟩
  · rfl
  by_cases hassign : t.kind = .assign
  · refine Placeless.of_eq_cons ?_ (fun rest => if_pos hassign) (fun rest => if_pos hassign)
    refine (placeless_skip _ _ _).andThen fun _ rest _ => ?_
    exact (placeless_amount _).andThen fun value rest _ =>
      placeless_done (Phrase.assignment target value) rest
  by_cases hequals : t.kind = .equals
  · have hrelation : ∀ s : Token, s.kind = t.kind → ∀ rest, relation target (s :: rest) =
        andThen (skip .equals .noRelation) (fun _ => andThen (condition maxDepth) fun right =>
          done (.binary (.cell target) .eq right)) (s :: rest) := by
      intro s hs rest
      rw [relation, hs, if_neg hassign, if_pos hequals]
    refine Placeless.of_eq_cons ?_ (hrelation t rfl) (hrelation t.placeless rfl)
    refine (placeless_skip _ _ _).andThen fun _ rest _ => ?_
    exact (placeless_condition _).andThen fun right rest _ =>
      placeless_done (Phrase.binary (.cell target) .eq right) rest
  · have hrelation : ∀ s : Token, s.kind = t.kind → ∀ rest, relation target (s :: rest) =
        fail .noRelation (s :: rest) := by
      intro s hs rest
      rw [relation, hs, if_neg hassign, if_neg hequals]
    exact (placeless_fail .noRelation _).of_eq_cons (hrelation t rfl) (hrelation t.placeless rfl)

/-- **Rules do not look at places.** -/
theorem placeless_statement (tokens : List Token) : Placeless statement tokens := by
  rcases tokens with - | ⟨t, rest⟩
  · rfl
  rw [Placeless, List.map_cons, statement, statement, Token.kind_placeless,
    Token.isCell_placeless, bare_eq_andThen]
  split
  · exact placeless_conditional rest
  split
  · exact Placeless.andThen (placeless_cell (t :: rest)) fun target rest _ =>
      placeless_relation target rest
  · exact placeless_fail .noStatement (t :: rest)

theorem whole_placeless (tokens : List Token) :
    whole (tokens.map Token.placeless) = (whole tokens).mapError Failure.placeless := by
  rw [whole, whole, placeless_statement tokens]
  rcases statement tokens with failure | ⟨phrase, - | ⟨t, rest⟩⟩ <;> rfl

end Grammar

/-! ### The end of input -/

open Grammar

theorem content_placeless (tokens : List Token) :
    content (tokens.map Token.placeless) = (content tokens).map Token.placeless :=
  List.takeWhile_map ..

/-- **Tokens that differ in their places only** are the same rule, or none with the same message. -/
theorem parse_of_marks_eq {tokens tokens' : List Token}
    (h : tokens.map Token.mark = tokens'.map Token.mark) :
    (∃ phrase, parse tokens = .ok phrase ∧ parse tokens' = .ok phrase) ∨
      ∃ e e', parse tokens = .error e ∧ parse tokens' = .error e' ∧ e.message = e'.message := by
  have hsame : (Parser.whole (content tokens)).mapError Parser.Failure.placeless =
      (Parser.whole (content tokens')).mapError Parser.Failure.placeless := by
    rw [← whole_placeless, ← whole_placeless, ← content_placeless, ← content_placeless,
      Token.map_placeless_eq h]
  have hmessage : ∀ (f : Parser.Failure) (stop : Location),
      (f.toError stop).message = f.message := by
    rintro ⟨cause, - | t⟩ stop <;> rfl
  rw [parse, parse]
  rcases hwhole : Parser.whole (content tokens) with failure | phrase <;>
    rcases hwhole' : Parser.whole (content tokens') with failure' | phrase' <;>
    rw [hwhole, hwhole'] at hsame
  · have hplaceless : failure.placeless = failure'.placeless := Except.error.inj hsame
    refine .inr ⟨_, _, rfl, rfl, ?_⟩
    rw [hmessage, hmessage, ← failure.message_placeless, hplaceless, failure'.message_placeless]
  · cases hsame
  · cases hsame
  · obtain rfl : phrase = phrase' := Except.ok.inj hsame
    exact .inl ⟨phrase, rfl, rfl⟩

end Phrase

end RegisterRules
