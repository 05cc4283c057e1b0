import RegisterRules.Compile
import RegisterRules.Proofs.Flattening
import RegisterRules.Proofs.Recognition

/-!
# Conditions without brackets

A condition without brackets is a row of comparisons with `и` or `или` between them, and `и` binds
tighter than `или`. The test on a row joins the same comparisons from left to right. The two
readings agree as long as no `и` follows an `или`: in `A или B и C` the test asks for `C` in any
case.

## Main definitions

* `Connective.byPrecedence`: the reading in which `и` binds tighter.
* `Rule.SpellsPlain`: the token sequences of conditions without brackets.

## Main results

* `Connective.joinAll_eq_byPrecedence_iff`: when the two readings agree.
* `Rule.exists_derives_of_spellsPlain`: the phrase of a condition without brackets flattens to the
  comparisons as they were written.
* `Rule.rowTest_eq_byPrecedence_iff`: the same from source text to the test on a row.
-/

namespace RegisterRules

/-! ### Two readings of a row of comparisons -/

namespace Connective

/-- The value of a row of comparisons in which `и` binds tighter than `или`. The first argument is
the value of those since the last `или`, which an `или` closes. -/
def byPrecedence : Bool → List Connective → (ℕ → Bool) → Bool
  | x, [], _ => x
  | x, k :: ks, v =>
    match k with
    | .or => x || byPrecedence (v 0) ks fun i => v (i + 1)
    | .and | .first => byPrecedence (x && v 0) ks fun i => v (i + 1)

theorem byPrecedence_cons_of_ne {k : Connective} (h : k ≠ .or) (x : Bool) (ks : List Connective)
    (v : ℕ → Bool) :
    byPrecedence x (k :: ks) v = byPrecedence (k.holds x (v 0)) ks fun i => v (i + 1) := by
  cases k with
  | or => exact absurd rfl h
  | and => rfl
  | first => rfl

/-- What holds already stays apart from alternatives that follow. -/
theorem joinAll_or_left {ks : List Connective} (h : ∀ k ∈ ks, k = .or) (x y : Bool) (v : ℕ → Bool) :
    joinAll (x || y) ks v = (x || joinAll y ks v) := by
  induction ks generalizing y v with
  | nil => rfl
  | cons k ks ih =>
    obtain ⟨rfl, hks⟩ := List.forall_mem_cons.mp h
    rw [joinAll, joinAll, holds, Bool.or_assoc, ih hks]
    rfl

/-- Alternatives alone may be read from left to right. -/
theorem byPrecedence_of_forall_or {ks : List Connective} (h : ∀ k ∈ ks, k = .or) (x : Bool)
    (v : ℕ → Bool) : byPrecedence x ks v = joinAll x ks v := by
  induction ks generalizing x v with
  | nil => rfl
  | cons k ks ih =>
    obtain ⟨rfl, hks⟩ := List.forall_mem_cons.mp h
    rw [byPrecedence, ih hks, joinAll, holds, joinAll_or_left hks]

/-- Behind an `или` there are alternatives only. -/
def AlternativesLast (ks : List Connective) : Prop := ks.Pairwise fun k k' => k = .or → k' = .or

theorem byPrecedence_of_alternativesLast {ks : List Connective} (h : AlternativesLast ks) (x : Bool)
    (v : ℕ → Bool) : byPrecedence x ks v = joinAll x ks v := by
  induction ks generalizing x v with
  | nil => rfl
  | cons k ks ih =>
    obtain ⟨hlater, hks⟩ := List.pairwise_cons.mp h
    by_cases hk : k = .or
    · refine byPrecedence_of_forall_or (List.forall_mem_cons.mpr ⟨hk, fun k' hk' => ?_⟩) x v
      exact hlater k' hk' hk
    · rw [byPrecedence_cons_of_ne hk, ih hks, joinAll]

/-- Where all comparisons up to an `или` hold and none behind it does, the two readings differ if
something is required behind it. -/
theorem exists_separation_of_not_alternativesLast {ks : List Connective}
    (h : ¬ AlternativesLast ks) :
    ∃ v, joinAll true ks v = false ∧ byPrecedence true ks v = true := by
  induction ks with
  | nil => exact absurd List.Pairwise.nil h
  | cons k ks ih =>
    by_cases hks : AlternativesLast ks
    · obtain ⟨k', hk', rfl, hne⟩ : ∃ k' ∈ ks, k = .or ∧ k' ≠ .or := by
        by_contra hnone
        push Not at hnone
        exact h (List.pairwise_cons.mpr ⟨fun k' hk' hk => hnone k' hk' hk, hks⟩)
      have hneutral : k'.neutral ≠ false := by
        cases k' with
        | or => exact absurd rfl hne
        | and => decide
        | first => decide
      exact ⟨fun _ => false, joinAll_not_const hk' hneutral, rfl⟩
    · obtain ⟨v, hjoin, hread⟩ := ih hks
      refine ⟨fun i => Nat.casesOn i true v, ?_, ?_⟩
      · change joinAll (k.holds true true) ks v = false
        rw [holds_self, hjoin]
      · by_cases hk : k = .or
        · rw [hk]
          rfl
        · rw [byPrecedence_cons_of_ne hk]
          change byPrecedence (k.holds true true) ks v = true
          rw [holds_self, hread]

/-- **When the two readings agree.** -/
theorem joinAll_eq_byPrecedence_iff (ks : List Connective) :
    (∀ v : ℕ → Bool, joinAll (v 0) ks (fun i => v (i + 1)) =
      byPrecedence (v 0) ks fun i => v (i + 1)) ↔ AlternativesLast ks := by
  constructor
  · intro hagree
    by_contra hks
    obtain ⟨v, hjoin, hread⟩ := exists_separation_of_not_alternativesLast hks
    have hdiffer : joinAll true ks v = byPrecedence true ks v :=
      hagree fun i => Nat.casesOn i true v
    rw [hjoin, hread] at hdiffer
    cases hdiffer
  · intro hks v
    rw [byPrecedence_of_alternativesLast hks]

end Connective

/-! ### Conditions without brackets -/

namespace Rule

open Phrase Phrase.Grammar

/-- A token that spells a column or a literal. -/
inductive SpellsOperand : Token → Operand → Prop
  | column {t : Token} {c : Cell} (spelled : IsColumn t c) : SpellsOperand t (.cell c)
  | number {t : Token} {x : Binary64} (kind : t.kind = .number)
      (read : Numeral.read? t.text.toList = some x) : SpellsOperand t (.literal (.number x))
  | string {t : Token} (kind : t.kind = .string) : SpellsOperand t (.literal (.text t.text))
  | nothing {t : Token} (kind : t.kind = .emptyWord) : SpellsOperand t (.literal .null)

/-- Three tokens that compare a column with a column or a literal. -/
inductive SpellsComparison : List Token → Condition → Prop
  | intro {t o x : Token} {c : Condition} (column : IsColumn t c.cell)
      (compares : Level.Joins .comparisons o.kind c.operator)
      (operand : SpellsOperand x c.operand) : SpellsComparison [t, o, x] c

/-- The tokens of a condition without brackets: comparisons with `и` or `или` between them. Each
comparison has the word in front of it as its connective. -/
inductive SpellsPlain : List Token → List Condition → Prop
  | single {word : List Token} {c : Condition} (comparison : SpellsComparison word c)
      (first : c.connective = .first) : SpellsPlain word [c]
  | and {before word : List Token} {t : Token} {conditions : List Condition} {c : Condition}
      (earlier : SpellsPlain before conditions) (kind : t.kind = .andWord)
      (comparison : SpellsComparison word c) (required : c.connective = .and) :
      SpellsPlain (before ++ t :: word) (conditions ++ [c])
  | or {before word : List Token} {t : Token} {conditions : List Condition} {c : Condition}
      (earlier : SpellsPlain before conditions) (kind : t.kind = .orWord)
      (comparison : SpellsComparison word c) (alternative : c.connective = .or) :
      SpellsPlain (before ++ t :: word) (conditions ++ [c])

variable {word rest tokens : List Token} {phrase : Phrase}

theorem exists_derives_of_spellsOperand {t : Token} {operand : Operand}
    (h : SpellsOperand t operand) :
    ∃ right, Derives (.operand .condition) 0 [t] right ∧ rightOperand right = operand := by
  cases h with
  | column hcolumn => exact ⟨_, .column hcolumn, rfl⟩
  | number hkind hread => exact ⟨_, .number hkind hread, rfl⟩
  | string hkind => exact ⟨_, .string hkind, rfl⟩
  | nothing hkind => exact ⟨_, .nothing hkind, rfl⟩

/-- The phrase of a comparison gives the condition, with the connective from outside. -/
theorem exists_derives_of_spellsComparison {c : Condition} (h : SpellsComparison word c) :
    ∃ test, Derives (.level .comparisons) 0 word test ∧
      ∀ k, conditionsOf k test = [{ c with connective := k }] := by
  obtain @⟨t, o, x, c, hcolumn, hjoins, hoperand⟩ := h
  obtain ⟨right, hright, hrightOperand⟩ := exists_derives_of_spellsOperand hoperand
  have hleft : Derives (.level .comparisons) 0 [t] (.cell c.cell) := .item (.column hcolumn)
  refine ⟨.binary (.cell c.cell) c.operator right, hleft.join hjoins hright, fun k => ?_⟩
  rw [conditionsOf_comparison hjoins.isComparison, hrightOperand]
  rfl

/-- One more requirement goes to the last of the alternatives. -/
theorem exists_derives_and {before : List Token} {t : Token} {earlier test : Phrase}
    (hearlier : Derives (.level .alternatives) 0 before earlier) (hkind : t.kind = .andWord)
    (htest : Derives (.level .comparisons) 0 word test) :
    ∃ whole, Derives (.level .alternatives) 0 (before ++ t :: word) whole ∧
      ∀ k, conditionsOf k whole = conditionsOf k earlier ++ conditionsOf .and test := by
  have hand : Level.Joins .requirements t.kind .and := by
    rw [hkind]
    exact .and
  cases hearlier with
  | item hrequirements =>
    exact ⟨.binary earlier .and test, .item (.join hrequirements hand htest),
      fun k => conditionsOf_join rfl⟩
  | @join _ _ left right o op l r hleft hor hright =>
    obtain rfl := hor.eq_or
    refine ⟨.binary l .or (.binary r .and test), ?_, fun k => ?_⟩
    · rw [List.append_assoc, List.cons_append]
      exact hleft.join hor (.join hright hand htest)
    · rw [conditionsOf_join rfl, conditionsOf_join rfl, conditionsOf_join rfl, List.append_assoc]

/-- **A condition without brackets flattens to what was written.** -/
theorem exists_derives_of_spellsPlain {conditions : List Condition}
    (h : SpellsPlain word conditions) :
    ∃ test, Derives (.level .alternatives) 0 word test ∧ conditionsOf .first test = conditions := by
  induction h with
  | @single word c hcomparison hfirst =>
    obtain ⟨test, htest, hconditions⟩ := exists_derives_of_spellsComparison hcomparison
    exact ⟨test, .item (.item htest), by rw [hconditions, ← hfirst]⟩
  | @and before word t conditions c _ hkind hcomparison hand ih =>
    obtain ⟨earlier, hearlier, rfl⟩ := ih
    obtain ⟨test, htest, hconditions⟩ := exists_derives_of_spellsComparison hcomparison
    obtain ⟨whole, hwhole, happend⟩ := exists_derives_and hearlier hkind htest
    exact ⟨whole, hwhole, by rw [happend, hconditions, ← hand]⟩
  | @or before word t conditions c _ hkind hcomparison hor ih =>
    obtain ⟨earlier, hearlier, rfl⟩ := ih
    obtain ⟨test, htest, hconditions⟩ := exists_derives_of_spellsComparison hcomparison
    refine ⟨.binary earlier .or test, hearlier.join ?_ (.item htest), ?_⟩
    · rw [hkind]
      exact .or
    · rw [conditionsOf_join rfl, hconditions, ← hor]

/-- The rule of a conditional has the list of its condition. -/
theorem exists_rule_of_branches {test : Phrase}
    (h : Parser.branches test tokens = .ok (phrase, rest)) :
    ∃ rule, ofPhrase? phrase = some rule ∧ rule.conditions = conditionsOf .first test := by
  rw [Parser.branches] at h
  split at h
  · simp at h
  · next target value _ =>
    obtain ⟨rfl, -⟩ : .conditional test target value = phrase ∧ [] = rest := by simpa using h
    exact ⟨_, rfl, rfl⟩
  · next target value t behind _ =>
    split at h
    · split at h
      · simp at h
      · next otherTarget otherValue behind' _ =>
        obtain ⟨rfl, -⟩ : .conditionalElse test target value otherTarget otherValue = phrase ∧
            behind' = rest := by simpa using h
        exact ⟨_, rfl, rfl⟩
    · obtain ⟨rfl, -⟩ : .conditional test target value = phrase ∧ t :: behind = rest := by
        simpa using h
      exact ⟨_, rfl, rfl⟩

/-- The conditions of a rule read with `и` binding tighter than `или`. -/
def readByPrecedence (conditions : List Condition) (v : ℕ → Bool) : Bool :=
  Connective.byPrecedence (v 0) (conditions.tail.map (·.connective)) fun i => v (i + 1)

/-- Only the first comparison has no word in front of it. -/
theorem exists_eq_cons_of_spellsPlain {conditions : List Condition}
    (h : SpellsPlain word conditions) :
    ∃ head tail, conditions = head :: tail ∧ head.connective = .first ∧
      ∀ c ∈ tail, c.connective ≠ .first := by
  induction h with
  | @single _ c _ hfirst => exact ⟨c, [], rfl, hfirst, by simp⟩
  | @and _ _ _ _ c _ _ _ hand ih =>
    obtain ⟨head, tail, rfl, hfirst, htail⟩ := ih
    refine ⟨head, tail ++ [c], rfl, hfirst, List.forall_mem_append.mpr ⟨htail, ?_⟩⟩
    simp [hand]
  | @or _ _ _ _ c _ _ _ hor ih =>
    obtain ⟨head, tail, rfl, hfirst, htail⟩ := ih
    refine ⟨head, tail ++ [c], rfl, hfirst, List.forall_mem_append.mpr ⟨htail, ?_⟩⟩
    simp [hor]

/-- The two readings on a list of conditions. -/
theorem truth_rowTest_eq_readByPrecedence_iff (primary : TableId) {head : Condition}
    {tail : List Condition} (hfirst : head.connective = .first)
    (htail : ∀ c ∈ tail, c.connective ≠ .first)
    (hcompare : ∀ c ∈ head :: tail, c.operator.isComparison = true) :
    (∀ v : ℕ → Bool, (rowTest primary (head :: tail)).truth v =
        readByPrecedence (head :: tail) v) ↔
      (head :: tail).Pairwise fun earlier later =>
        ¬ (earlier.connective = .or ∧ later.connective = .and) := by
  have hpairs : Connective.AlternativesLast (tail.map (·.connective)) ↔
      tail.Pairwise fun earlier later =>
        ¬ (earlier.connective = .or ∧ later.connective = .and) := by
    rw [Connective.AlternativesLast, List.pairwise_map]
    refine List.Pairwise.iff_of_mem fun {c d} _ hd => ?_
    have hword := htail d hd
    rcases hk : d.connective with - | - | -
    · exact absurd hk hword
    · simp
    · simp
  rw [List.pairwise_cons, ← hpairs, ← Connective.joinAll_eq_byPrecedence_iff]
  simp only [truth_rowTest hcompare, readByPrecedence, List.tail_cons, hfirst]
  exact ⟨fun h => ⟨fun _ _ => by simp, h⟩, fun h => h.2⟩

/-- **Conditions without brackets, from source text to the test on a row.** Let a source be accepted
as a conditional whose condition is a row of comparisons of a column with a column or a literal. Its
rule has these comparisons as conditions. The test on a row has the value of the row read with `и`
binding tighter than `или`, whatever the values of the comparisons are, if and only if no `и` stands
behind an `или`. -/
theorem rowTest_eq_byPrecedence_iff (source : String) {phrase : Phrase} {first next : Token}
    {word rest : List Token} {conditions : List Condition}
    (hparse : Phrase.parse (Token.scan source) = .ok phrase)
    (hsource : Phrase.content (Token.scan source) = first :: (word ++ next :: rest))
    (hfirst : first.kind = .ifWord) (hword : SpellsPlain word conditions)
    (hnext : next.kind = .thenWord) :
    ∃ rule, ofPhrase? phrase = some rule ∧ rule.conditions = conditions ∧
      ((∀ v : ℕ → Bool, (rowTest rule.primary rule.conditions).truth v =
          readByPrecedence conditions v) ↔
        conditions.Pairwise fun earlier later =>
          ¬ (earlier.connective = .or ∧ later.connective = .and)) := by
  obtain ⟨test, htest, hconditions⟩ := exists_derives_of_spellsPlain hword
  have hbranches : Parser.branches test rest = .ok (phrase, []) := by
    rw [← statement_conditional hfirst htest hnext, ← hsource]
    exact (parse_eq_ok_iff.mp hparse).statement_eq_ok
  obtain ⟨rule, hrule, hruleConditions⟩ := exists_rule_of_branches hbranches
  rw [hconditions] at hruleConditions
  obtain ⟨head, tail, rfl, hhead, htail⟩ := exists_eq_cons_of_spellsPlain hword
  have hcompare : ∀ c ∈ head :: tail, c.operator.isComparison = true := fun c hc =>
    isComparison_of_mem_conditionsOf (hconditions ▸ hc)
  refine ⟨rule, hrule, hruleConditions, ?_⟩
  rw [hruleConditions]
  exact truth_rowTest_eq_readByPrecedence_iff rule.primary hhead htail hcompare

/-- An alternative behind a requirement: the two readings are one. -/
theorem rowTest_eq_byPrecedence_requirement_first :
    ∃ phrase rule,
      Phrase.parse (Token.scan
        "если гр10102212=='да' и гр10102213=='да' или гр10102214=='да' то гр10102206='да'") =
        .ok phrase ∧
      ofPhrase? phrase = some rule ∧
      rule.conditions =
        [⟨⟨"10102", 2, 12, "10102212"⟩, .eq, .literal (.text "да"), .first⟩,
          ⟨⟨"10102", 2, 13, "10102213"⟩, .eq, .literal (.text "да"), .and⟩,
          ⟨⟨"10102", 2, 14, "10102214"⟩, .eq, .literal (.text "да"), .or⟩] ∧
      ∀ v : ℕ → Bool,
        (rowTest rule.primary rule.conditions).truth v = readByPrecedence rule.conditions v := by
  have hscan : Token.scan
      "если гр10102212=='да' и гр10102213=='да' или гр10102214=='да' то гр10102206='да'" =
      [⟨.ifWord, "если", 1, 0⟩, ⟨.identifier, "гр10102212", 1, 5⟩, ⟨.equals, "==", 1, 15⟩,
        ⟨.string, "да", 1, 17⟩, ⟨.andWord, "и", 1, 22⟩, ⟨.identifier, "гр10102213", 1, 24⟩,
        ⟨.equals, "==", 1, 34⟩, ⟨.string, "да", 1, 36⟩, ⟨.orWord, "или", 1, 41⟩,
        ⟨.identifier, "гр10102214", 1, 45⟩, ⟨.equals, "==", 1, 55⟩, ⟨.string, "да", 1, 57⟩,
        ⟨.thenWord, "то", 1, 62⟩, ⟨.identifier, "гр10102206", 1, 65⟩, ⟨.assign, "=", 1, 75⟩,
        ⟨.string, "да", 1, 76⟩, ⟨.endOfInput, "", 1, 80⟩] := by decide +kernel
  have hplain : SpellsPlain
      (([⟨.identifier, "гр10102212", 1, 5⟩, ⟨.equals, "==", 1, 15⟩, ⟨.string, "да", 1, 17⟩] ++
        ⟨.andWord, "и", 1, 22⟩ :: [⟨.identifier, "гр10102213", 1, 24⟩, ⟨.equals, "==", 1, 34⟩,
          ⟨.string, "да", 1, 36⟩]) ++
        ⟨.orWord, "или", 1, 41⟩ :: [⟨.identifier, "гр10102214", 1, 45⟩, ⟨.equals, "==", 1, 55⟩,
          ⟨.string, "да", 1, 57⟩])
      (([⟨⟨"10102", 2, 12, "10102212"⟩, .eq, .literal (.text "да"), .first⟩] ++
        [⟨⟨"10102", 2, 13, "10102213"⟩, .eq, .literal (.text "да"), .and⟩]) ++
        [⟨⟨"10102", 2, 14, "10102214"⟩, .eq, .literal (.text "да"), .or⟩]) :=
    .or (.and (.single (.intro ⟨by decide +kernel, by decide +kernel⟩ .eq (.string rfl)) rfl) rfl
        (.intro ⟨by decide +kernel, by decide +kernel⟩ .eq (.string rfl)) rfl) rfl
      (.intro ⟨by decide +kernel, by decide +kernel⟩ .eq (.string rfl)) rfl
  have hparse : Phrase.parse (Token.scan
      "если гр10102212=='да' и гр10102213=='да' или гр10102214=='да' то гр10102206='да'") =
      .ok (.conditional
        (.binary
          (.binary (.binary (.cell ⟨"10102", 2, 12, "10102212"⟩) .eq (.literal (.text "да"))) .and
            (.binary (.cell ⟨"10102", 2, 13, "10102213"⟩) .eq (.literal (.text "да")))) .or
          (.binary (.cell ⟨"10102", 2, 14, "10102214"⟩) .eq (.literal (.text "да"))))
        ⟨"10102", 2, 6, "10102206"⟩ (.literal (.text "да"))) := by
    rw [hscan]
    decide +kernel
  obtain ⟨rule, hrule, hconditions, hiff⟩ :=
    rowTest_eq_byPrecedence_iff _ hparse (by rw [hscan]; rfl) rfl hplain rfl
  refine ⟨_, rule, hparse, hrule, hconditions, ?_⟩
  rw [hconditions] at hiff ⊢
  exact hiff.mpr (by decide)

/-- A requirement behind an alternative: if the first comparison holds and the others do not, the
condition holds and the row is not selected. -/
theorem requirement_behind_alternative :
    ∃ phrase rule, Phrase.parse (Token.scan
        "если гр10102212=='да' или гр10102213=='да' и гр10102214=='да' то гр10102206='да'") =
        .ok phrase ∧ ofPhrase? phrase = some rule ∧
      (rowTest rule.primary rule.conditions).truth (fun i => i == 0) = false ∧
      readByPrecedence rule.conditions (fun i => i == 0) = true := by
  refine ⟨.conditional
    (.binary (.binary (.cell ⟨"10102", 2, 12, "10102212"⟩) .eq (.literal (.text "да"))) .or
      (.binary (.binary (.cell ⟨"10102", 2, 13, "10102213"⟩) .eq (.literal (.text "да"))) .and
        (.binary (.cell ⟨"10102", 2, 14, "10102214"⟩) .eq (.literal (.text "да")))))
    ⟨"10102", 2, 6, "10102206"⟩ (.literal (.text "да")), _, by decide +kernel, rfl, ?_, ?_⟩
  · rfl
  · rfl

end Rule

end RegisterRules
