import RegisterRules.Proofs.Recognition

/-!
# One token of lookahead

A parser stops at the first token that it cannot use. To say that this is the right token takes two
statements, and both are about sequences that the parser was not given: the tokens in front of the
place can be completed to a rule, and no rule goes on with the token at that place.

## The invariant

`OneAhead parser accepted tokens` holds both for one parser. If it takes a word, the word is
accepted, and only the word and the token behind it decided that. If it fails, the tokens in front
begin an accepted word, and only they and the token at fault decided that. The statement is closed
under doing one parser after the other (`OneAhead.andThen`), and it may be shown for each first
token apart (`OneAhead.of_eq_on_head`). Every parser of rules is built in these two ways.

A loop is given room by the number of tokens, which is not the same for another continuation.
`chainWithin_congr` says that more room makes no difference.

## Main definitions

* `Phrase.Grammar.OneAhead`: a parser decides by one token beyond those that it takes.
* `Phrase.Grammar.andThen`: one parser after the other.

## Main results

* `Phrase.Grammar.oneAhead_parse`: the levels of both ladders look one token ahead.
* `Phrase.Grammar.oneAhead_statement`: so do rules.
* `Phrase.Grammar.exists_of_whole_eq_error`: what a failed rule says about other rules.
-/

namespace RegisterRules

namespace Phrase

namespace Grammar

open RegisterRules.Phrase.Parser

variable {α β : Type} {tokens : List Token}

/-! ### One token ahead -/

/-- On the given tokens, a parser decides by one token beyond those that it takes. What it takes is
an accepted word. Where it fails, the tokens in front begin an accepted word, and the token at fault
is enough to fail. -/
structure OneAhead (parser : List Token → Outcome α) (accepted : List Token → α → Prop)
    (tokens : List Token) : Prop where
  /-- Success depends on the word that is taken and the token behind it. -/
  ok : ∀ x rest, parser tokens = .ok (x, rest) →
    ∃ word, tokens = word ++ rest ∧ accepted word x ∧
      ∀ other, other.head? = rest.head? → parser (word ++ other) = .ok (x, other)
  /-- Failure depends on the tokens in front and the token at fault. -/
  error : ∀ failure, parser tokens = .error failure →
    ∃ before after, tokens = before ++ after ∧ failure.found = after.head? ∧
      (∃ more x, accepted (before ++ more) x) ∧
      ∀ other, other.head? = after.head? → parser (before ++ other) = .error failure

/-- The first token of a sequence does not depend on what stands behind its second part's first. -/
theorem head?_append_congr {before after other : List Token} (h : other.head? = after.head?) :
    (before ++ other).head? = (before ++ after).head? := by
  simp [List.head?_append, h]

/-- It is enough to know a parser on the sequences with the same first token. -/
theorem OneAhead.of_eq_on_head {parser parser' : List Token → Outcome α}
    {accepted : List Token → α → Prop} (h : OneAhead parser' accepted tokens)
    (heq : ∀ other, other.head? = tokens.head? → parser other = parser' other) :
    OneAhead parser accepted tokens where
  ok x rest hok := by
    rw [heq tokens rfl] at hok
    obtain ⟨word, rfl, hword, hother⟩ := h.ok x rest hok
    refine ⟨word, rfl, hword, fun other hhead => ?_⟩
    rw [heq _ (head?_append_congr hhead), hother other hhead]
  error failure herror := by
    rw [heq tokens rfl] at herror
    obtain ⟨before, after, rfl, hfound, hmore, hother⟩ := h.error failure herror
    refine ⟨before, after, rfl, hfound, hmore, fun other hhead => ?_⟩
    rw [heq _ (head?_append_congr hhead), hother other hhead]

theorem OneAhead.mono {parser : List Token → Outcome α} {accepted accepted' : List Token → α → Prop}
    (h : OneAhead parser accepted tokens) (himp : ∀ word x, accepted word x → accepted' word x) :
    OneAhead parser accepted' tokens where
  ok x rest hok := by
    obtain ⟨word, heq, hword, hother⟩ := h.ok x rest hok
    exact ⟨word, heq, himp word x hword, hother⟩
  error failure herror := by
    obtain ⟨before, after, heq, hfound, ⟨more, x, hmore⟩, hother⟩ := h.error failure herror
    exact ⟨before, after, heq, hfound, ⟨more, x, himp _ x hmore⟩, hother⟩

/-- A parser that takes nothing. -/
def done (x : α) (tokens : List Token) : Outcome α := .ok (x, tokens)

theorem oneAhead_done {accepted : List Token → α → Prop} {x : α} (h : accepted [] x) :
    OneAhead (done x) accepted tokens where
  ok y rest hok := by
    obtain ⟨rfl, rfl⟩ : x = y ∧ tokens = rest := by simpa [done] using hok
    exact ⟨[], rfl, h, fun other _ => rfl⟩
  error failure herror := by
    simp [done] at herror

theorem oneAhead_fail {accepted : List Token → α → Prop} (cause : Cause)
    (h : ∃ word x, accepted word x) : OneAhead (fail cause) accepted tokens where
  ok x rest hok := by
    simp [fail] at hok
  error failure herror := by
    obtain rfl : (⟨cause, tokens.head?⟩ : Failure) = failure := by simpa [fail] using herror
    refine ⟨[], tokens, rfl, rfl, h, fun other hhead => ?_⟩
    rw [List.nil_append, fail, hhead]

/-- One parser after the other. -/
def andThen (first : List Token → Outcome α) (next : α → List Token → Outcome β)
    (tokens : List Token) : Outcome β :=
  match first tokens with
  | .error failure => .error failure
  | .ok (x, rest) => next x rest

/-- **One parser after the other looks one token ahead** if both do, the second behind every word of
the first, and every word of the first can be completed. -/
theorem OneAhead.andThen {first : List Token → Outcome α} {next : α → List Token → Outcome β}
    {words : List Token → α → Prop} {accepted : List Token → β → Prop}
    (hfirst : OneAhead first words tokens)
    (hfill : ∀ word x, words word x → ∃ more y, accepted (word ++ more) y)
    (hnext : ∀ word x rest, words word x → tokens = word ++ rest →
      OneAhead (next x) (fun more y => accepted (word ++ more) y) rest) :
    OneAhead (andThen first next) accepted tokens where
  ok y rest hok := by
    rw [Grammar.andThen] at hok
    split at hok
    · cases hok
    · next x behind hx =>
      obtain ⟨word, rfl, hword, hword'⟩ := hfirst.ok x behind hx
      obtain ⟨more, rfl, hmore, hmore'⟩ := (hnext word x behind hword rfl).ok y rest hok
      refine ⟨word ++ more, by simp, hmore, fun other hhead => ?_⟩
      rw [Grammar.andThen, List.append_assoc, hword' _ (head?_append_congr hhead)]
      exact hmore' other hhead
  error failure herror := by
    rw [Grammar.andThen] at herror
    split at herror
    · next failure' hx =>
      obtain rfl : failure' = failure := by simpa using herror
      obtain ⟨before, after, rfl, hfound, ⟨more, x, hmore⟩, hother⟩ := hfirst.error _ hx
      obtain ⟨more', y, hy⟩ := hfill _ x hmore
      refine ⟨before, after, rfl, hfound, ⟨more ++ more', y, by simpa using hy⟩, ?_⟩
      intro other hhead
      rw [Grammar.andThen, hother other hhead]
    · next x behind hx =>
      obtain ⟨word, rfl, hword, hword'⟩ := hfirst.ok x behind hx
      obtain ⟨before, after, rfl, hfound, ⟨more, y, hmore⟩, hother⟩ :=
        (hnext word x behind hword rfl).error failure herror
      refine ⟨word ++ before, after, by simp, hfound, ⟨more, y, by simpa using hmore⟩, ?_⟩
      intro other hhead
      rw [Grammar.andThen, List.append_assoc, hword' _ (head?_append_congr hhead)]
      exact hother other hhead

/-! ### Single tokens -/

theorem OneAhead.of_eq_cons {parser parser' : List Token → Outcome α}
    {accepted : List Token → α → Prop} {t : Token} {rest : List Token}
    (h : OneAhead parser' accepted (t :: rest))
    (heq : ∀ rest, parser (t :: rest) = parser' (t :: rest)) :
    OneAhead parser accepted (t :: rest) := by
  refine h.of_eq_on_head fun other hhead => ?_
  obtain ⟨rest', rfl⟩ := List.head?_eq_some_iff.mp hhead
  exact heq rest'

theorem OneAhead.of_eq_nil {parser parser' : List Token → Outcome α}
    {accepted : List Token → α → Prop} (h : OneAhead parser' accepted [])
    (heq : parser [] = parser' []) : OneAhead parser accepted [] := by
  refine h.of_eq_on_head fun other hhead => ?_
  rw [List.head?_eq_none_iff.mp hhead, heq]

/-- A parser that takes the next token. -/
theorem oneAhead_single {parser : List Token → Outcome α} {accepted : List Token → α → Prop}
    {t : Token} {rest : List Token} {x : α} (h : accepted [t] x)
    (heq : ∀ rest, parser (t :: rest) = .ok (x, rest)) : OneAhead parser accepted (t :: rest) where
  ok y rest' hok := by
    rw [heq rest] at hok
    obtain ⟨rfl, rfl⟩ : x = y ∧ rest = rest' := by simpa using hok
    exact ⟨[t], rfl, h, fun other _ => heq other⟩
  error failure herror := by
    rw [heq rest] at herror
    cases herror

/-- A token with no text of its own. -/
def sample (kind : Token.Kind) : Token := ⟨kind, "", 1, 0⟩

/-- A token that spells a column. -/
def sampleColumn : Token := ⟨.identifier, "гр10102212", 1, 0⟩

theorem isColumn_sampleColumn : IsColumn sampleColumn ⟨"10102", 2, 12, "10102212"⟩ :=
  ⟨by decide +kernel, by decide +kernel⟩

theorem oneAhead_cell :
    OneAhead Parser.cell (fun word c => ∃ t, word = [t] ∧ IsColumn t c) tokens := by
  have hsome : ∃ word c, ∃ t, word = [t] ∧ IsColumn t c := ⟨_, _, _, rfl, isColumn_sampleColumn⟩
  rcases tokens with - | ⟨t, rest⟩
  · exact (oneAhead_fail .noCell hsome).of_eq_nil rfl
  by_cases hmark : t.isCell = true
  · rcases hdecode : Cell.decode? t.text with - | c
    · refine (oneAhead_fail .malformedCell hsome).of_eq_cons fun rest => ?_
      rw [Parser.cell, if_pos hmark, hdecode]
    · refine oneAhead_single ⟨t, rfl, hmark, hdecode⟩ fun rest => ?_
      rw [Parser.cell, if_pos hmark, hdecode]
  · refine (oneAhead_fail .noCell hsome).of_eq_cons fun rest => ?_
    rw [Parser.cell, if_neg hmark]

/-- A parser that takes a token of the given kind. -/
def skip (kind : Token.Kind) (cause : Cause) (tokens : List Token) : Outcome Unit :=
  (expect kind cause tokens).map fun rest => ((), rest)

theorem andThen_skip {kind : Token.Kind} {cause : Cause} {next : List Token → Outcome α}
    (tokens : List Token) :
    andThen (skip kind cause) (fun _ => next) tokens =
      match expect kind cause tokens with
      | .error failure => .error failure
      | .ok rest => next rest := by
  rw [andThen, skip]
  rcases expect kind cause tokens with failure | rest <;> rfl

theorem andThen_skip_cons {kind : Token.Kind} {cause : Cause} {next : List Token → Outcome α}
    {t : Token} (h : t.kind = kind) (rest : List Token) :
    andThen (skip kind cause) (fun _ => next) (t :: rest) = next rest := by
  rw [andThen_skip, expect, if_pos h]

theorem oneAhead_skip {kind : Token.Kind} (cause : Cause) :
    OneAhead (skip kind cause) (fun word _ => ∃ t, word = [t] ∧ t.kind = kind) tokens := by
  have hsome : ∃ word, ∃ _ : Unit, ∃ t : Token, word = [t] ∧ t.kind = kind :=
    ⟨_, (), sample kind, rfl, rfl⟩
  rcases tokens with - | ⟨t, rest⟩
  · exact (oneAhead_fail cause hsome).of_eq_nil rfl
  by_cases hkind : t.kind = kind
  · refine oneAhead_single (x := ()) ⟨t, rfl, hkind⟩ fun rest => ?_
    rw [skip, expect, if_pos hkind]
    rfl
  · refine (oneAhead_fail cause hsome).of_eq_cons fun rest => ?_
    rw [skip, expect, if_neg hkind]
    rfl

/-! ### The two ladders -/

/-- Nothing is an expression of every level. -/
theorem derives_nothing (symbol : Symbol) (opened : ℕ) :
    Derives symbol opened [sample .emptyWord] (.literal .null) := by
  have hoperand : ∀ ladder, Derives (.operand ladder) opened [sample .emptyWord] (.literal .null) :=
    fun _ => .nothing rfl
  rcases symbol with (- | - | - | - | -) | ladder
  · exact .item (.item (.item (hoperand .condition)))
  · exact .item (.item (hoperand .condition))
  · exact .item (hoperand .condition)
  · exact .item (.item (hoperand .amount))
  · exact .item (hoperand .amount)
  · exact hoperand ladder

theorem operand_cell {inside : Option (List Token → Outcome Phrase)} {t : Token}
    (h : t.isCell = true) (rest : List Token) :
    operand inside (t :: rest) = andThen Parser.cell (fun c => done (.cell c)) (t :: rest) := by
  rw [operand.eq_def, andThen]
  simp only [h, if_true]
  rcases Parser.cell (t :: rest) with failure | ⟨c, behind⟩ <;> rfl

theorem operand_openParen {parser : List Token → Outcome Phrase} {t : Token}
    (h : t.kind = .openParen) (rest : List Token) :
    operand (some parser) (t :: rest) =
      andThen (skip .openParen .noOperand) (fun _ =>
        andThen parser fun phrase => andThen (skip .closeParen .noClosing) fun _ => done phrase)
        (t :: rest) := by
  have hmark : t.isCell = false := isCell_eq_false (by simp [h])
  rw [andThen_skip_cons h, operand.eq_def]
  simp only [hmark, h, Bool.false_eq_true, if_false]
  rw [andThen]
  rcases parser rest with failure | ⟨phrase, behind⟩
  · rfl
  · exact (andThen_skip behind).symm

theorem operand_other {inside : Option (List Token → Outcome Phrase)} {t : Token}
    (hmark : t.isCell = false)
    (h : t.kind ∉ [Token.Kind.number, .string, .emptyWord, .openParen]) (rest : List Token) :
    operand inside (t :: rest) = fail .noOperand (t :: rest) := by
  rw [operand.eq_def]
  simp only [hmark, Bool.false_eq_true, if_false]
  cases hkind : t.kind <;> simp [hkind] at h ⊢

/-- Brackets around what a parser accepts. -/
theorem oneAhead_brackets {parser : List Token → Outcome Phrase} {ladder : Ladder} {opened : ℕ}
    (hroom : opened < 64)
    (hparser : ∀ tokens, OneAhead parser (Derives (.level ladder.top) (opened + 1)) tokens) :
    OneAhead
      (andThen (skip .openParen .noOperand) fun _ =>
        andThen parser fun phrase => andThen (skip .closeParen .noClosing) fun _ => done phrase)
      (Derives (.operand ladder) opened) tokens := by
  have hclose : (sample .closeParen).kind = .closeParen := rfl
  refine (oneAhead_skip .noOperand).andThen ?_ ?_
  · rintro _ - ⟨o, rfl, ho⟩
    exact ⟨[sample .emptyWord] ++ [sample .closeParen], _,
      .brackets hroom ho (derives_nothing _ _) hclose⟩
  rintro _ - _ ⟨o, rfl, ho⟩ -
  refine (hparser _).andThen ?_ ?_
  · intro word phrase hword
    exact ⟨[sample .closeParen], phrase, .brackets hroom ho hword hclose⟩
  intro word phrase _ hword _
  refine (oneAhead_skip .noClosing).andThen ?_ ?_
  · rintro _ - ⟨c, rfl, hc⟩
    refine ⟨[], phrase, ?_⟩
    rw [List.append_nil]
    exact .brackets hroom ho hword hc
  · rintro _ - _ ⟨c, rfl, hc⟩ -
    refine oneAhead_done ?_
    rw [List.append_nil]
    exact .brackets hroom ho hword hc

theorem oneAhead_operand {inside : Option (List Token → Outcome Phrase)} {ladder : Ladder}
    {opened : ℕ} (hinside : ∀ parser ∈ inside, opened < 64 ∧ ∀ tokens,
      OneAhead parser (Derives (.level ladder.top) (opened + 1)) tokens) :
    OneAhead (operand inside) (Derives (.operand ladder) opened) tokens := by
  have hsome : ∃ word phrase, Derives (.operand ladder) opened word phrase :=
    ⟨_, _, derives_nothing _ _⟩
  rcases tokens with - | ⟨t, rest⟩
  · exact (oneAhead_fail .noOperand hsome).of_eq_nil rfl
  by_cases hmark : t.isCell = true
  · refine OneAhead.of_eq_cons ?_ (operand_cell hmark)
    refine oneAhead_cell.andThen ?_ ?_
    · rintro _ c ⟨t, rfl, hcolumn⟩
      exact ⟨[], _, .column hcolumn⟩
    · rintro _ c _ ⟨t, rfl, hcolumn⟩ -
      exact oneAhead_done (.column hcolumn)
  rw [Bool.not_eq_true] at hmark
  by_cases hnumber : t.kind = .number
  · rcases hread : Numeral.read? t.text.toList with - | x
    · refine (oneAhead_fail .badNumber hsome).of_eq_cons fun rest => ?_
      simp [operand.eq_def, hmark, hnumber, hread]
    · refine oneAhead_single (.number hnumber hread) fun rest => ?_
      simp [operand.eq_def, hmark, hnumber, hread]
  by_cases hstring : t.kind = .string
  · refine oneAhead_single (.string hstring) fun rest => ?_
    simp [operand.eq_def, hmark, hstring]
  by_cases hnothing : t.kind = .emptyWord
  · refine oneAhead_single (.nothing hnothing) fun rest => ?_
    simp [operand.eq_def, hmark, hnothing]
  by_cases hopening : t.kind = .openParen
  · rcases inside with - | parser
    · refine (oneAhead_fail .tooDeep hsome).of_eq_cons fun rest => ?_
      simp [operand.eq_def, hmark, hopening]
    · obtain ⟨hroom, hparser⟩ := hinside parser rfl
      exact (oneAhead_brackets hroom hparser).of_eq_cons (operand_openParen hopening)
  · refine (oneAhead_fail .noOperand hsome).of_eq_cons (operand_other hmark ?_)
    simp [hnumber, hstring, hnothing, hopening]

/-- Room beyond the number of tokens makes no difference to a loop. -/
theorem chainWithin_congr {operator? : Token.Kind → Option Operator}
    {item : List Token → Outcome Phrase}
    (hitem : ∀ tokens phrase rest, item tokens = .ok (phrase, rest) → rest.length ≤ tokens.length)
    {room room' : ℕ} (h : tokens.length ≤ room) (h' : tokens.length ≤ room') (left : Phrase) :
    chainWithin operator? item room left tokens = chainWithin operator? item room' left tokens := by
  induction room generalizing room' left tokens with
  | zero =>
    rw [List.length_eq_zero_iff.mp (by omega : tokens.length = 0)]
    cases room' <;> rfl
  | succ room ih =>
    rcases tokens with - | ⟨t, rest⟩
    · cases room' <;> rfl
    rw [List.length_cons] at h h'
    obtain ⟨room', rfl⟩ := Nat.exists_eq_add_one_of_ne_zero (by omega : room' ≠ 0)
    rw [chainWithin, chainWithin]
    split
    · rfl
    · split
      · rfl
      · next right behind hright =>
        have hle := hitem _ _ _ hright
        exact ih (by omega) (by omega) _

/-- The loop of a level with room for all the tokens. -/
def loop (level : Level) (depth : ℕ) (left : Phrase) (tokens : List Token) : Outcome Phrase :=
  chainWithin level.operator? (level.item.parse depth) tokens.length left tokens

theorem length_le_of_parse {symbol : Symbol} {opened depth : ℕ} (hdepth : opened + depth = 64)
    (tokens : List Token) (phrase : Phrase) (rest : List Token)
    (h : symbol.parse depth tokens = .ok (phrase, rest)) : rest.length ≤ tokens.length := by
  obtain ⟨word, rfl, -⟩ := exists_derives_of_parse symbol hdepth _ _ _ h
  rw [List.length_append]
  omega

/-- One round of a loop: an operator, an item, and the loop again. -/
theorem loop_cons {level : Level} {opened depth : ℕ} (hdepth : opened + depth = 64) {t : Token}
    {op : Operator} (hop : level.operator? t.kind = some op) (left : Phrase) (rest : List Token) :
    loop level depth left (t :: rest) =
      andThen (skip t.kind .noOperand) (fun _ => andThen (level.item.parse depth) fun right =>
        loop level depth (.binary left op right)) (t :: rest) := by
  rw [andThen_skip_cons rfl, loop, List.length_cons, chainWithin, hop]
  simp only [andThen]
  rcases hright : level.item.parse depth rest with failure | ⟨right, behind⟩
  · rfl
  · have hle := length_le_of_parse hdepth _ _ _ hright
    exact chainWithin_congr (length_le_of_parse hdepth) hle (Nat.le_refl _) _

theorem oneAhead_loop {level : Level} {opened depth : ℕ} (hdepth : opened + depth = 64)
    (hitem : ∀ tokens, OneAhead (level.item.parse depth) (Derives level.item opened) tokens)
    {before : List Token} {left : Phrase} (hleft : Derives (.level level) opened before left) :
    OneAhead (loop level depth left)
      (fun word phrase => Derives (.level level) opened (before ++ word) phrase) tokens := by
  have hstop : Derives (.level level) opened (before ++ []) left := by
    rw [List.append_nil]
    exact hleft
  induction hsize : tokens.length using Nat.strongRecOn generalizing tokens before left with
  | ind size ih =>
    rcases tokens with - | ⟨t, rest⟩
    · exact (oneAhead_done hstop).of_eq_nil rfl
    rcases hop : level.operator? t.kind with - | op
    · refine (oneAhead_done hstop).of_eq_cons fun rest => ?_
      rw [loop, List.length_cons, chainWithin, hop]
      rfl
    -- a round takes the operator and an item, and fewer tokens are left
    refine OneAhead.of_eq_cons ?_ (loop_cons hdepth hop left)
    have hround : ∀ (o : Token) (after : List Token) (right : Phrase), o.kind = t.kind →
        Derives level.item opened after right →
        Derives (.level level) opened (before ++ o :: after) (.binary left op right) := by
      intro o after right ho hright
      refine hleft.join ?_ hright
      rw [ho]
      exact Level.operator?_eq_some_iff.mp hop
    refine (oneAhead_skip .noOperand).andThen ?_ ?_
    · rintro _ - ⟨o, rfl, ho⟩
      exact ⟨_, _, hround o _ _ ho (derives_nothing _ _)⟩
    rintro _ - tail ⟨o, rfl, ho⟩ htail
    refine (hitem tail).andThen ?_ ?_
    · intro after right hright
      exact ⟨[], _, by simpa using hround o after right ho hright⟩
    intro after right behind hright hbehind
    have hlt : behind.length < size := by
      rw [← hsize, htail, hbehind]
      simp only [List.length_append, List.length_cons]
      omega
    have hjoin := hround o after right ho hright
    have hloop := ih behind.length hlt hjoin (by rw [List.append_nil]; exact hjoin) rfl
    exact hloop.mono fun word phrase hword => by simpa using hword

theorem oneAhead_level (level : Level) {opened depth : ℕ} (hdepth : opened + depth = 64)
    (hitem : ∀ tokens, OneAhead (level.item.parse depth) (Derives level.item opened) tokens)
    (tokens : List Token) :
    OneAhead (level.parse depth) (Derives (.level level) opened) tokens := by
  have hchain : level.parse depth = andThen (level.item.parse depth) (loop level depth) := by
    funext tokens
    rw [Level.parse_eq_chain, chain, andThen]
    rcases level.item.parse depth tokens with failure | ⟨first, rest⟩ <;> rfl
  rw [hchain]
  refine (hitem tokens).andThen ?_ ?_
  · intro word phrase hword
    exact ⟨[], phrase, by simpa using hword.item⟩
  · intro word phrase rest hword _
    exact oneAhead_loop hdepth hitem hword.item

/-- Both ladders are climbed from their operands, as for soundness. -/
theorem oneAhead_of_operands {opened depth : ℕ} (hdepth : opened + depth = 64)
    (hoperand : ∀ (ladder : Ladder) (tokens : List Token),
      OneAhead (operand (ladder.inside depth)) (Derives (.operand ladder) opened) tokens)
    (symbol : Symbol) (tokens : List Token) :
    OneAhead (symbol.parse depth) (Derives symbol opened) tokens := by
  have hcomparisons := oneAhead_level .comparisons hdepth (hoperand .condition)
  have hrequirements := oneAhead_level .requirements hdepth hcomparisons
  have hproducts := oneAhead_level .products hdepth (hoperand .amount)
  rcases symbol with (- | - | - | - | -) | ladder
  · exact oneAhead_level .alternatives hdepth hrequirements tokens
  · exact hrequirements tokens
  · exact hcomparisons tokens
  · exact oneAhead_level .sums hdepth hproducts tokens
  · exact hproducts tokens
  · exact hoperand ladder tokens

/-- **Every symbol of the grammar is parsed with one token of lookahead.** -/
theorem oneAhead_parse (symbol : Symbol) {opened depth : ℕ} (hdepth : opened + depth = 64)
    (tokens : List Token) : OneAhead (symbol.parse depth) (Derives symbol opened) tokens := by
  induction depth generalizing opened symbol tokens with
  | zero =>
    refine oneAhead_of_operands hdepth (fun ladder tokens => oneAhead_operand ?_) symbol tokens
    rintro parser ⟨⟩
  | succ depth ih =>
    refine oneAhead_of_operands hdepth (fun ladder tokens => oneAhead_operand ?_) symbol tokens
    rintro parser ⟨⟩
    rw [ladder.parse_eq_top]
    exact ⟨by omega, ih (.level ladder.top) (by omega)⟩

/-! ### Whole rules -/

theorem oneAhead_ladder (ladder : Ladder) (tokens : List Token) :
    OneAhead (ladder.parse maxDepth) (Derives (.level ladder.top) 0) tokens := by
  rw [ladder.parse_eq_top]
  exact oneAhead_parse (.level ladder.top) rfl tokens

theorem assigns_sample : Assigns [sampleColumn, sample .assign, sample .emptyWord]
    ⟨"10102", 2, 12, "10102212"⟩ (.literal .null) :=
  .intro isColumn_sampleColumn rfl (derives_nothing _ _)

theorem assignment_eq_andThen : Parser.assignment =
    andThen Parser.cell fun target => andThen (skip .assign .noAssign) fun _ =>
      andThen (amount maxDepth) fun value => done (target, value) := by
  funext tokens
  rw [Parser.assignment, andThen]
  rcases Parser.cell tokens with failure | ⟨target, rest⟩
  · rfl
  simp only [andThen_skip]
  rcases expect .assign .noAssign rest with failure | rest
  · rfl
  simp only [andThen]
  rcases amount maxDepth rest with failure | ⟨value, rest⟩ <;> rfl

theorem oneAhead_assignment (tokens : List Token) :
    OneAhead Parser.assignment (fun word a => Assigns word a.1 a.2) tokens := by
  rw [assignment_eq_andThen]
  refine oneAhead_cell.andThen ?_ ?_
  · rintro _ c ⟨t, rfl, hcolumn⟩
    exact ⟨_, (c, _), .intro hcolumn (rfl : (sample .assign).kind = .assign) (derives_nothing _ _)⟩
  rintro _ c _ ⟨t, rfl, hcolumn⟩ -
  refine (oneAhead_skip .noAssign).andThen ?_ ?_
  · rintro _ - ⟨e, rfl, hassign⟩
    exact ⟨_, (c, _), .intro hcolumn hassign (derives_nothing _ _)⟩
  rintro _ - _ ⟨e, rfl, hassign⟩ -
  refine (oneAhead_ladder .amount _).andThen ?_ ?_
  · intro word value hvalue
    exact ⟨[], (c, value), by simpa using .intro hcolumn hassign hvalue⟩
  · intro word value _ hvalue _
    exact oneAhead_done (by simpa using .intro hcolumn hassign hvalue)

/-- What may follow the first branch: a second one, or nothing. -/
def alternative (test : Phrase) (a : Cell × Phrase) : List Token → Outcome Phrase
  | [] => done (.conditional test a.1 a.2) []
  | t :: rest =>
    if t.kind = .elseWord then
      andThen (skip .elseWord .noAssign) (fun _ => andThen Parser.assignment fun b =>
        done (.conditionalElse test a.1 a.2 b.1 b.2)) (t :: rest)
    else done (.conditional test a.1 a.2) (t :: rest)

theorem branches_eq_andThen (test : Phrase) :
    branches test = andThen Parser.assignment (alternative test) := by
  funext tokens
  rw [branches, andThen]
  rcases Parser.assignment tokens with failure | ⟨⟨target, value⟩, - | ⟨t, rest⟩⟩
  · rfl
  · rfl
  · by_cases helse : t.kind = .elseWord
    · simp only [alternative, if_pos helse, andThen_skip_cons helse]
      rw [andThen]
      rcases Parser.assignment rest with failure | ⟨⟨otherTarget, otherValue⟩, rest⟩ <;> rfl
    · simp only [alternative, if_neg helse, done]

theorem oneAhead_branches {first next : Token} {word : List Token} {test : Phrase}
    (hfirst : first.kind = .ifWord) (htest : Derives (.level .alternatives) 0 word test)
    (hnext : next.kind = .thenWord) (tokens : List Token) :
    OneAhead (branches test)
      (fun more phrase => Spells (first :: (word ++ next :: more)) phrase) tokens := by
  rw [branches_eq_andThen]
  refine (oneAhead_assignment tokens).andThen ?_ ?_
  · intro branch a hbranch
    exact ⟨[], _, by simpa using .conditional hfirst htest hnext hbranch⟩
  intro branch a rest hbranch _
  have hstop : Spells (first :: (word ++ next :: (branch ++ []))) (.conditional test a.1 a.2) := by
    rw [List.append_nil]
    exact .conditional hfirst htest hnext hbranch
  rcases rest with - | ⟨t, rest⟩
  · exact (oneAhead_done hstop).of_eq_nil rfl
  by_cases helse : t.kind = .elseWord
  · refine OneAhead.of_eq_cons ?_ fun rest => by rw [alternative, if_pos helse]
    refine (oneAhead_skip .noAssign).andThen ?_ ?_
    · rintro _ - ⟨e, rfl, he⟩
      exact ⟨_, _, .conditionalElse hfirst htest hnext hbranch he assigns_sample⟩
    rintro _ - _ ⟨e, rfl, he⟩ -
    refine (oneAhead_assignment _).andThen ?_ ?_
    · intro otherBranch b hother
      exact ⟨[], _, by simpa using .conditionalElse hfirst htest hnext hbranch he hother⟩
    · intro otherBranch b _ hother _
      exact oneAhead_done (by simpa using .conditionalElse hfirst htest hnext hbranch he hother)
  · exact (oneAhead_done hstop).of_eq_cons fun rest => by rw [alternative, if_neg helse]

theorem conditional_eq_andThen : Parser.conditional =
    andThen (condition maxDepth) fun test => andThen (skip .thenWord .noThen) fun _ =>
      branches test := by
  funext tokens
  rw [Parser.conditional, andThen]
  rcases condition maxDepth tokens with failure | ⟨test, rest⟩
  · rfl
  · exact (andThen_skip rest).symm

theorem oneAhead_conditional {first : Token} (hfirst : first.kind = .ifWord)
    (tokens : List Token) :
    OneAhead Parser.conditional (fun more phrase => Spells (first :: more) phrase) tokens := by
  rw [conditional_eq_andThen]
  have hthen : (sample .thenWord).kind = .thenWord := rfl
  refine (oneAhead_ladder .condition tokens).andThen ?_ ?_
  · intro word test htest
    exact ⟨_, _, .conditional hfirst htest hthen assigns_sample⟩
  intro word test rest htest _
  refine (oneAhead_skip .noThen).andThen ?_ ?_
  · rintro _ - ⟨next, rfl, hnext⟩
    exact ⟨_, _, .conditional hfirst htest hnext assigns_sample⟩
  · rintro _ - _ ⟨next, rfl, hnext⟩ -
    exact oneAhead_branches hfirst htest hnext _

/-- What may follow a column at the start of a rule. -/
def relation (target : Cell) : List Token → Outcome Phrase
  | [] => fail .noRelation []
  | t :: rest =>
    if t.kind = .assign then
      andThen (skip .assign .noRelation) (fun _ => andThen (amount maxDepth) fun value =>
        done (.assignment target value)) (t :: rest)
    else if t.kind = .equals then
      andThen (skip .equals .noRelation) (fun _ => andThen (condition maxDepth) fun right =>
        done (.binary (.cell target) .eq right)) (t :: rest)
    else fail .noRelation (t :: rest)

theorem bare_eq_andThen : bare = andThen Parser.cell relation := by
  funext tokens
  rw [bare, andThen]
  rcases Parser.cell tokens with failure | ⟨target, - | ⟨t, rest⟩⟩
  · rfl
  · rfl
  by_cases hassign : t.kind = .assign
  · simp only [relation, if_pos hassign, andThen_skip_cons hassign]
    rw [andThen]
    rcases amount maxDepth rest with failure | ⟨value, rest⟩ <;> rfl
  by_cases hequals : t.kind = .equals
  · simp only [relation, if_neg hassign, if_pos hequals, andThen_skip_cons hequals]
    rw [andThen]
    rcases condition maxDepth rest with failure | ⟨right, rest⟩ <;> rfl
  · simp only [relation, if_neg hassign, if_neg hequals]

theorem oneAhead_bare (tokens : List Token) : OneAhead bare Spells tokens := by
  rw [bare_eq_andThen]
  refine oneAhead_cell.andThen ?_ ?_
  · rintro _ c ⟨t, rfl, hcolumn⟩
    exact ⟨_, _, .assignment (.intro hcolumn (rfl : (sample .assign).kind = .assign)
      (derives_nothing _ _))⟩
  rintro _ c rest ⟨t, rfl, hcolumn⟩ -
  have hsome : ∃ more phrase, Spells ([t] ++ more) phrase :=
    ⟨_, _, .assignment (.intro hcolumn (rfl : (sample .assign).kind = .assign)
      (derives_nothing _ _))⟩
  rcases rest with - | ⟨e, rest⟩
  · exact (oneAhead_fail .noRelation hsome).of_eq_nil rfl
  by_cases hassign : e.kind = .assign
  · refine OneAhead.of_eq_cons ?_ fun rest => by rw [relation, if_pos hassign]
    refine (oneAhead_skip .noRelation).andThen ?_ ?_
    · rintro _ - ⟨e, rfl, he⟩
      exact ⟨_, _, .assignment (.intro hcolumn he (derives_nothing _ _))⟩
    rintro _ - _ ⟨e, rfl, he⟩ -
    refine (oneAhead_ladder .amount _).andThen ?_ ?_
    · intro word value hvalue
      exact ⟨[], _, by simpa using .assignment (.intro hcolumn he hvalue)⟩
    · intro word value _ hvalue _
      exact oneAhead_done (by simpa using .assignment (.intro hcolumn he hvalue))
  by_cases hequals : e.kind = .equals
  · refine OneAhead.of_eq_cons ?_ fun rest => by rw [relation, if_neg hassign, if_pos hequals]
    refine (oneAhead_skip .noRelation).andThen ?_ ?_
    · rintro _ - ⟨e, rfl, he⟩
      exact ⟨_, _, .comparison hcolumn he (derives_nothing _ _)⟩
    rintro _ - _ ⟨e, rfl, he⟩ -
    refine (oneAhead_ladder .condition _).andThen ?_ ?_
    · intro word right hright
      exact ⟨[], _, by simpa using .comparison hcolumn he hright⟩
    · intro word right _ hright _
      exact oneAhead_done (by simpa using .comparison hcolumn he hright)
  · refine (oneAhead_fail .noRelation hsome).of_eq_cons fun rest => ?_
    rw [relation, if_neg hassign, if_neg hequals]

/-- **Rules are parsed with one token of lookahead.** -/
theorem oneAhead_statement (tokens : List Token) : OneAhead statement Spells tokens := by
  have hsome : ∃ word phrase, Spells word phrase := ⟨_, _, .assignment assigns_sample⟩
  rcases tokens with - | ⟨t, rest⟩
  · exact (oneAhead_fail .noStatement hsome).of_eq_nil rfl
  by_cases hfirst : t.kind = .ifWord
  · have heq : ∀ rest, statement (t :: rest) =
        andThen (skip .ifWord .noStatement) (fun _ => Parser.conditional) (t :: rest) := by
      intro rest
      rw [statement, if_pos hfirst, andThen_skip_cons hfirst]
    refine OneAhead.of_eq_cons ?_ heq
    refine (oneAhead_skip .noStatement).andThen ?_ ?_
    · rintro _ - ⟨first, rfl, hfirst⟩
      have hspells := Spells.conditional hfirst (derives_nothing (.level .alternatives) 0)
        (rfl : (sample .thenWord).kind = .thenWord) assigns_sample
      exact ⟨_, _, hspells⟩
    · rintro _ - _ ⟨first, rfl, hfirst⟩ -
      exact oneAhead_conditional hfirst _
  by_cases hmark : t.isCell = true
  · refine (oneAhead_bare _).of_eq_cons fun rest => ?_
    rw [statement, if_neg hfirst, if_pos hmark]
  · refine (oneAhead_fail .noStatement hsome).of_eq_cons fun rest => ?_
    rw [statement, if_neg hfirst, if_neg hmark]

/-- Where a rule fails, the tokens in front begin a rule, and with the token at fault behind them
they begin none. -/
theorem exists_of_whole_eq_error {failure : Failure} (h : whole tokens = .error failure) :
    ∃ before after, tokens = before ++ after ∧ failure.found = after.head? ∧
      (∃ more phrase, Spells (before ++ more) phrase) ∧
      ∀ other, other.head? = after.head? → whole (before ++ other) = .error failure := by
  rw [whole] at h
  split at h
  · next failure' hstatement =>
    obtain rfl : failure' = failure := by simpa using h
    obtain ⟨before, after, heq, hfound, hmore, hother⟩ :=
      (oneAhead_statement tokens).error _ hstatement
    refine ⟨before, after, heq, hfound, hmore, fun other hhead => ?_⟩
    rw [whole, hother other hhead]
  · cases h
  · next phrase t rest hstatement =>
    obtain rfl : (⟨.afterEnd, some t⟩ : Failure) = failure := by simpa using h
    obtain ⟨word, heq, hword, hother⟩ := (oneAhead_statement tokens).ok _ _ hstatement
    refine ⟨word, t :: rest, heq, rfl, ⟨[], phrase, by simpa using hword⟩, fun other hhead => ?_⟩
    obtain ⟨rest', rfl⟩ := List.head?_eq_some_iff.mp hhead
    rw [whole, hother _ hhead]

end Grammar

end Phrase

end RegisterRules
