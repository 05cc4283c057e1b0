import RegisterRules.Proofs.Misfit
import RegisterRules.Proofs.Provenance

/-!
# Bare comparisons and conditions

A rule may be a bare comparison, a column with `==` behind it. The same tokens may stand as the
condition of a conditional, and both are accepted alike. They are not read alike. The condition goes
down the ladder of operators, so the comparison takes the one operand behind `==`, and whatever
joins more to it stands above. The bare comparison takes `==` first, and has the whole rest on its
right: in `A == B и C == D` it compares `A` with the value of `B и C == D`.

## How the two phrases are related

The tokens behind `==` have a phrase of their own. In the condition the comparison is drawn into
that phrase, down its left side as far as its first operand (`DrawnIn`). If the phrase is an operand
already, the comparison stays on top and the two readings agree. If not, they differ, since a phrase
is never its own right side.

Brackets leave no trace in a phrase, so it is the tokens that say how far down the first operand is.
The induction is over the derivation of the tokens behind `==`.

## Main definitions

* `Phrase.DrawnIn`: a comparison drawn into a phrase.

## Main results

* `Phrase.Grammar.Derives.exists_drawnIn`: the condition with a column and `==` in front.
* `Phrase.bare_eq_test_iff`: when a bare comparison is read like the same condition.
-/

namespace RegisterRules

namespace Phrase

open Grammar

/-- `DrawnIn c phrase test`: in `test`, the column is compared with an operand at the left end of
the phrase, and the operators above it stay where they are. -/
inductive DrawnIn (c : Cell) : Phrase → Phrase → Prop
  | operand (phrase : Phrase) : DrawnIn c phrase (.binary (.cell c) .eq phrase)
  | under {left test right : Phrase} {op : Operator} (drawn : DrawnIn c left test) :
      DrawnIn c (.binary left op right) (.binary test op right)

/-- A phrase is not its own right side. -/
theorem ne_binary_right (left right : Phrase) (op : Operator) : right ≠ .binary left op right := by
  intro h
  have hsize := congrArg sizeOf h
  simp only [binary.sizeOf_spec] at hsize
  omega

namespace Grammar

variable {opened : ℕ} {word : List Token} {right : Phrase} {t e : Token} {c : Cell}

/-- A condition has one phrase. -/
theorem Derives.phrase_unique {phrase other : Phrase}
    (h : Derives (.level .alternatives) 0 word phrase)
    (h' : Derives (.level .alternatives) 0 word other) : phrase = other := by
  have hphrase := Ladder.condition.parse_append h loose_nil
  rw [Ladder.condition.parse_append h' loose_nil] at hphrase
  simpa using hphrase.symm

/-- **A condition with a column and `==` in front is a condition.** The comparison is drawn in, and
stays on top only if all that follows is one operand. -/
theorem Derives.exists_drawnIn {level : Level} (h : Derives (.level level) opened word right)
    (hlevel : level.ladder = .condition) (hcolumn : IsColumn t c) (hequals : e.kind = .equals) :
    ∃ test, Derives (.level level) opened (t :: e :: word) test ∧ DrawnIn c right test ∧
      (test = .binary (.cell c) .eq right → Derives (.operand .condition) opened word right) := by
  generalize hsymbol : Symbol.level level = symbol at h
  induction h generalizing level with
  | @item level opened word phrase hitem ih =>
    cases hsymbol
    cases level with
    | comparisons =>
      have hjoins : Level.Joins .comparisons e.kind .eq := hequals ▸ .eq
      have hleft : Derives (.level .comparisons) opened [t] (.cell c) := .item (.column hcolumn)
      exact ⟨_, hleft.join hjoins hitem, .operand phrase, fun _ => hitem⟩
    | alternatives | requirements =>
      obtain ⟨test, htest, hdrawn, htop⟩ := ih rfl rfl
      exact ⟨test, .item htest, hdrawn, htop⟩
    | sums | products => cases hlevel
  | @join level opened before after o op left right hleft hjoins hright ihleft _ =>
    cases hsymbol
    obtain ⟨test, htest, hdrawn, -⟩ := ihleft hlevel rfl
    refine ⟨_, htest.join hjoins hright, .under hdrawn, fun htop => ?_⟩
    -- on top there is the operator of the join, with less on its right
    injection htop with _ _ hsame
    exact absurd hsame (ne_binary_right left right op)
  | column | number | string | nothing | brackets => cases hsymbol

end Grammar

/-- A condition that the input ends is no conditional. -/
theorem statement_ne_ok_of_derives {first : Token} {word : List Token} {test phrase : Phrase}
    {rest : List Token} (hfirst : first.kind = .ifWord)
    (htest : Derives (.level .alternatives) 0 word test) :
    Parser.statement (first :: word) ≠ .ok (phrase, rest) := by
  have hcondition := Ladder.condition.parse_append htest loose_nil
  rw [Ladder.parse, List.append_nil] at hcondition
  simp [Parser.statement, hfirst, Parser.conditional, hcondition, Parser.expect]

/-- So no end of input stands in the condition of a conditional. -/
theorem content_eq_self_of_conditional {first : Token} {tokens behind : List Token}
    {test whole : Phrase} (hfirst : first.kind = .ifWord)
    (htest : Derives (.level .alternatives) 0 (content tokens) test)
    (hwhole : parse (first :: (tokens ++ behind)) = .ok whole) : content tokens = tokens := by
  obtain ⟨rest, htokens, hrest⟩ := exists_eq_content_append tokens
  rcases rest with - | ⟨stop, rest⟩
  · rw [List.append_nil] at htokens
    exact htokens.symm
  · have hkinds : ∀ t ∈ first :: content tokens, t.kind ≠ .endOfInput :=
      List.forall_mem_cons.mpr ⟨by simp [hfirst], htest.kind_ne⟩
    have hcut : content (first :: (tokens ++ behind)) = first :: content tokens := by
      have hsplit : first :: (tokens ++ behind) =
          (first :: content tokens) ++ stop :: (rest ++ behind) := by
        conv_lhs => rw [htokens]
        simp
      rw [hsplit, content_append hkinds, content_cons_end (hrest stop rfl), List.append_nil]
    have hstatement := (parse_eq_ok_iff.mp hwhole).statement_eq_ok
    rw [hcut] at hstatement
    exact absurd hstatement (statement_ne_ok_of_derives hfirst htest)

/-- A rule that starts with a column and `==` is a bare comparison. -/
theorem exists_derives_of_bare {t e : Token} {word : List Token} {bare : Phrase}
    (ht : t.isCell = true) (he : e.kind = .equals) (hbare : parse (t :: e :: word) = .ok bare) :
    ∃ c right, content (t :: e :: word) = t :: e :: content word ∧ IsColumn t c ∧
      Derives (.level .alternatives) 0 (content word) right ∧
      bare = .binary (.cell c) .eq right := by
  have hkind : t.kind = .identifier := by
    simp only [Token.isCell, Bool.and_eq_true, beq_iff_eq] at ht
    exact ht.1
  have hcontent : content (t :: e :: word) = t :: e :: content word := by
    simp [content, hkind, he]
  have hspells := parse_eq_ok_iff.mp hbare
  rw [hcontent] at hspells
  generalize htokens : t :: e :: content word = tokens at hspells
  cases hspells with
  | conditional hfirst | conditionalElse hfirst =>
    rw [← (List.cons.inj htokens).1, hkind] at hfirst
    cases hfirst
  | assignment hassigns =>
    obtain ⟨-, hassign, -⟩ := hassigns
    rw [← (List.cons.inj (List.cons.inj htokens).2).1, he] at hassign
    cases hassign
  | comparison hcolumn _ hright =>
    cases htokens
    exact ⟨_, _, hcontent, hcolumn, hright, rfl⟩

/-- **When a bare comparison is read like the same condition.** Let tokens that start with a column
and `==` be accepted as a bare comparison, and also between `если` and `то` with an assignment
behind. The two phrases are equal if and only if one operand is all that stands behind `==`. In any
case, the condition is what stands behind `==` with the comparison drawn in. -/
theorem bare_eq_test_iff {t e first next : Token} {word assigned : List Token} {target : Cell}
    {value bare whole : Phrase} (ht : t.isCell = true) (he : e.kind = .equals)
    (hbare : parse (t :: e :: word) = .ok bare) (hfirst : first.kind = .ifWord)
    (hnext : next.kind = .thenWord) (hassigned : Assigns assigned target value)
    (hwhole : parse (first :: (t :: e :: word ++ next :: assigned)) = .ok whole) :
    ∃ c right test, bare = .binary (.cell c) .eq right ∧
      whole = .conditional test target value ∧ DrawnIn c right test ∧
      (bare = test ↔ ∃ operand, Derives (.operand .condition) 0 word operand) := by
  obtain ⟨c, right, hcontent, hcolumn, hright, rfl⟩ := exists_derives_of_bare ht he hbare
  obtain ⟨test, htest, hdrawn, htop⟩ := hright.exists_drawnIn rfl hcolumn he
  have hself : content (t :: e :: word) = t :: e :: word :=
    content_eq_self_of_conditional hfirst (hcontent ▸ htest) hwhole
  have hword : content word = word := by
    rw [hcontent] at hself
    exact (List.cons.inj (List.cons.inj hself).2).2
  rw [hword] at hright htest htop
  have hsame : whole = .conditional test target value := by
    have hparse := (Spells.conditional hfirst htest hnext hassigned).parse_eq_ok
    rw [hwhole] at hparse
    simpa using hparse
  refine ⟨c, right, test, rfl, hsame, hdrawn, fun h => ⟨right, htop h.symm⟩, ?_⟩
  rintro ⟨operand, hoperand⟩
  have hitem : Derives (.level .comparisons) 0 [t] (.cell c) := .item (.column hcolumn)
  have hjoins : Level.Joins .comparisons e.kind .eq := he ▸ .eq
  obtain rfl : operand = right :=
    Derives.phrase_unique (.item (.item (.item hoperand))) hright
  exact Derives.phrase_unique (.item (.item (hitem.join hjoins hoperand))) htest

/-- With one operand behind `==`, the bare comparison is the condition. -/
theorem bare_eq_test_iff_oneOperand :
    ∃ bare test target value,
      parse [sampleColumn, sample .equals, sample .emptyWord] = .ok bare ∧
      parse (sample .ifWord :: ([sampleColumn, sample .equals, sample .emptyWord] ++
        sample .thenWord :: [sampleColumn, sample .assign, sample .emptyWord])) =
        .ok (.conditional test target value) ∧
      bare = test := by
  have hbare : parse [sampleColumn, sample .equals, sample .emptyWord] =
      .ok (.binary (.cell ⟨"10102", 2, 12, "10102212"⟩) .eq (.literal .null)) := by decide +kernel
  have hwhole : parse (sample .ifWord :: ([sampleColumn, sample .equals, sample .emptyWord] ++
      sample .thenWord :: [sampleColumn, sample .assign, sample .emptyWord])) =
      .ok (.conditional (.binary (.cell ⟨"10102", 2, 12, "10102212"⟩) .eq (.literal .null))
        ⟨"10102", 2, 12, "10102212"⟩ (.literal .null)) := by decide +kernel
  obtain ⟨c, right, test, -, htest, -, hiff⟩ :=
    bare_eq_test_iff isColumn_sampleColumn.marked rfl hbare rfl rfl assigns_sample hwhole
  rw [htest] at hwhole
  exact ⟨_, test, _, _, hbare, hwhole, hiff.mpr ⟨_, .nothing rfl⟩⟩

/-- A requirement behind a bare comparison becomes part of its right side; behind the same
comparison in a condition it stands on top. -/
theorem bare_ne_test_of_requirement :
    ∃ t e word bare test target value,
      content (Token.scan "гр10102212=='да' и гр10102213=='да'") = t :: e :: word ∧
      t.isCell = true ∧ e.kind = .equals ∧
      parse (t :: e :: word) = .ok bare ∧
      parse (sample .ifWord :: (t :: e :: word ++
        sample .thenWord :: [sampleColumn, sample .assign, sample .emptyWord])) =
        .ok (.conditional test target value) ∧
      bare ≠ test := by
  refine ⟨⟨.identifier, "гр10102212", 1, 0⟩, ⟨.equals, "==", 1, 10⟩,
    [⟨.string, "да", 1, 12⟩, ⟨.andWord, "и", 1, 17⟩, ⟨.identifier, "гр10102213", 1, 19⟩,
      ⟨.equals, "==", 1, 29⟩, ⟨.string, "да", 1, 31⟩],
    .binary (.cell ⟨"10102", 2, 12, "10102212"⟩) .eq
      (.binary (.literal (.text "да")) .and
        (.binary (.cell ⟨"10102", 2, 13, "10102213"⟩) .eq (.literal (.text "да")))),
    .binary (.binary (.cell ⟨"10102", 2, 12, "10102212"⟩) .eq (.literal (.text "да"))) .and
      (.binary (.cell ⟨"10102", 2, 13, "10102213"⟩) .eq (.literal (.text "да"))),
    ⟨"10102", 2, 12, "10102212"⟩, .literal .null, ?_, ?_, rfl, ?_, ?_, ?_⟩
  all_goals decide +kernel

end Phrase

end RegisterRules
