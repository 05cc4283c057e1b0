import Mathlib.Data.List.Chain
import RegisterRules.Proofs.Outcome

/-!
# Where the conditions of a rule stand

The conditions of a rule are a list, and each has the word that joins it to the one before. This
module says where in the condition of the conditional each of them stands, and where its word does.

## Places

A place is the way from the root of a phrase to a part of it, through operators only. The conditions
of a rule are the outermost comparisons: those that are reached through operators that compare
nothing. A comparison inside a comparison is none of them.

A comparison takes the word of the deepest `и` or `или` to the right of which it stands. That node
may be far above it, and the nodes in between pass its word on to what stands on their left. So the
induction is over the way from the root, with the word that comes from outside (`tagAt`).

## Neighbours

If `и`, `или` and comparisons are all there is, every node has a comparison on either side. The
first comparison to the right of a node follows the last one to its left, and takes its word. So the
word of a condition is the one at the node where the ways to it and to its predecessor part.

A column or a literal in place of a comparison contributes nothing to the list, yet its word goes to
what follows: `если 1 и гр10102212 == 2` has one condition, and that one is joined by `и`.

## Main definitions

* `Phrase.Place`, `Phrase.at?`: a place, and the part of a phrase that stands there.
* `Phrase.OutermostComparison`, `Phrase.TaggedWith`: what the list of a condition is made of.
* `Phrase.LeftOf`, `Phrase.LowestCommon`: the order of places, and the node where two ways part.
* `Phrase.opensWithComparison`: whether a condition has a comparison in front.

## Main results

* `Phrase.mem_outermost_iff`: a list of all outermost comparisons.
* `Phrase.taggedWith_tagAt`: the word of a place.
* `Rule.conditionsOf_eq_map_outermost`: the conditions are the outermost comparisons.
* `Rule.ofPhrase?_lists_outermost`: the law of flattening.
* `Rule.first_unjoined_iff`: when the first condition of a rule has no word.
-/

namespace RegisterRules

theorem Operator.connective?_ne_first (op : Operator) {k : Connective}
    (h : op.connective? = some k) : k ≠ .first := by
  cases op <;> cases h <;> decide

namespace Phrase

/-! ### Places -/

/-- A side of an operator. -/
inductive Side where
  | left
  | right
deriving DecidableEq

/-- What stands on a side of an operator. -/
def Side.pick : Side → Phrase → Phrase → Phrase
  | .left, first, _ => first
  | .right, _, second => second

/-- The way from the root of a phrase to a part of it. -/
abbrev Place := List Side

/-- The part of a phrase at a place, if there are operators all the way. -/
def at? (t : Phrase) : Place → Option Phrase
  | [] => some t
  | side :: way =>
    match t with
    | .binary left _ right => (side.pick left right).at? way
    | _ => none

/-- At a place two phrases are joined by an operator. -/
def HasOperator (t : Phrase) (place : Place) (op : Operator) : Prop :=
  ∃ left right, t.at? place = some (.binary left op right)

/-- A comparison that is reached through operators that compare nothing. -/
structure OutermostComparison (t : Phrase) (place : Place) (left : Phrase) (op : Operator)
    (right : Phrase) : Prop where
  found : t.at? place = some (.binary left op right)
  compares : op.isComparison = true
  reached : ∀ above, above <+: place → above ≠ place →
    ∃ o, t.HasOperator above o ∧ o.isComparison = false

/-- A place stands to the right of the `и` or `или` at another. -/
structure BehindWord (t : Phrase) (above place : Place) (k : Connective) : Prop where
  word : ∃ op, t.HasOperator above op ∧ op.connective? = some k
  behind : above ++ [.right] <+: place

/-- The connective of a place: that of the deepest `и` or `или` to the right of which it stands, or
the one from outside if there is none. -/
inductive TaggedWith (t : Phrase) (place : Place) (outside : Connective) : Connective → Prop
  | word {above : Place} {k : Connective} (behind : t.BehindWord above place k)
      (deepest : ∀ above' k', t.BehindWord above' place k' → above' <+: above) :
      TaggedWith t place outside k
  | outside (none : ∀ above k, ¬ t.BehindWord above place k) : TaggedWith t place outside outside

/-- The ways to two places part at a node, the first to its left and the second to its right. -/
structure PartAt (above place other : Place) : Prop where
  left : above ++ [.left] <+: place
  right : above ++ [.right] <+: other

/-- A place stands to the left of another. -/
def LeftOf (place other : Place) : Prop := ∃ above, PartAt above place other

/-- The lowest node above two places. -/
structure LowestCommon (above place other : Place) : Prop where
  first : above <+: place
  second : above <+: other
  lowest : ∀ node, node <+: place → node <+: other → node <+: above

theorem PartAt.cons {above place other : Place} (h : PartAt above place other) (side : Side) :
    PartAt (side :: above) (side :: place) (side :: other) :=
  ⟨by simpa using h.left, by simpa using h.right⟩

/-- No way goes to both sides of a node. -/
theorem not_prefix_both {above place : Place} (hright : above ++ [.right] <+: place) :
    ¬ above ++ [.left] <+: place := by
  intro hleft
  have hlength : (above ++ [Side.left]).length = (above ++ [Side.right]).length := by simp
  have hsame := (List.prefix_of_prefix_length_le hleft hright hlength.le).eq_of_length hlength
  simp at hsame

/-- The node where the ways to two places part is the lowest above both. -/
theorem PartAt.lowestCommon {above place other : Place} (h : PartAt above place other) :
    LowestCommon above place other where
  first := (List.prefix_append above _).trans h.left
  second := (List.prefix_append above _).trans h.right
  lowest node hplace hother := by
    rcases List.prefix_or_prefix_of_prefix hplace h.left with hnode | hnode
    · rcases List.prefix_concat_iff.mp hnode with rfl | hnode
      · exact absurd hother (not_prefix_both h.right)
      · exact hnode
    · exact absurd (hnode.trans hother) (not_prefix_both h.right)

variable {left right t : Phrase} {op : Operator} {k : Connective}

theorem hasOperator_cons {side : Side} {way : Place} {o : Operator} :
    (binary left op right).HasOperator (side :: way) o ↔
      (side.pick left right).HasOperator way o := Iff.rfl

theorem hasOperator_nil {o : Operator} : (binary left op right).HasOperator [] o ↔ o = op := by
  constructor
  · rintro ⟨l, r, h⟩
    cases h
    rfl
  · rintro rfl
    exact ⟨left, right, rfl⟩

/-- A way that goes on starts at an operator. -/
theorem exists_eq_binary_of_at? {side : Side} {way : Place} {part : Phrase}
    (h : t.at? (side :: way) = some part) : ∃ left op right, t = .binary left op right := by
  cases t with
  | binary left op right => exact ⟨left, op, right, rfl⟩
  | _ => cases h

/-! ### The outermost comparisons -/

/-- The outermost comparisons from left to right, each with its place. -/
def outermost : Phrase → List (Place × Phrase × Operator × Phrase)
  | .binary left op right =>
    if op.isComparison then [([], left, op, right)]
    else left.outermost.map (Prod.map (.left :: ·) id) ++
      right.outermost.map (Prod.map (.right :: ·) id)
  | _ => []

theorem outermost_comparison (h : op.isComparison = true) :
    (binary left op right).outermost = [([], left, op, right)] := by
  rw [outermost, if_pos h]

theorem outermost_append (h : op.isComparison = false) :
    (binary left op right).outermost = left.outermost.map (Prod.map (.left :: ·) id) ++
      right.outermost.map (Prod.map (.right :: ·) id) := by
  rw [outermost, if_neg (by simp [h])]

theorem outermostComparison_cons (h : op.isComparison = false) {side : Side} {way : Place}
    {l r : Phrase} {o : Operator} :
    (binary left op right).OutermostComparison (side :: way) l o r ↔
      (side.pick left right).OutermostComparison way l o r := by
  constructor
  · rintro ⟨hfound, hcompares, hreached⟩
    refine ⟨hfound, hcompares, fun above habove hne => ?_⟩
    obtain ⟨o', ho', hfalse⟩ :=
      hreached (side :: above) (by simpa using habove) (by simpa using hne)
    exact ⟨o', hasOperator_cons.mp ho', hfalse⟩
  · rintro ⟨hfound, hcompares, hreached⟩
    refine ⟨hfound, hcompares, fun above habove hne => ?_⟩
    rcases above with - | ⟨side', above⟩
    · exact ⟨op, hasOperator_nil.mpr rfl, h⟩
    · obtain ⟨rfl, hway⟩ := List.cons_prefix_cons.mp habove
      obtain ⟨o', ho', hfalse⟩ := hreached above hway (by simpa using hne)
      exact ⟨o', hasOperator_cons.mpr ho', hfalse⟩

theorem outermostComparison_nil {l r : Phrase} {o : Operator} :
    t.OutermostComparison [] l o r ↔ t = .binary l o r ∧ o.isComparison = true := by
  constructor
  · rintro ⟨hfound, hcompares, -⟩
    exact ⟨Option.some.inj hfound, hcompares⟩
  · rintro ⟨rfl, hcompares⟩
    exact ⟨rfl, hcompares, fun above habove hne => absurd (List.prefix_nil.mp habove) hne⟩

/-- Nothing inside a comparison is outermost. -/
theorem not_outermostComparison_cons (h : op.isComparison = true) {side : Side} {way : Place}
    {l r : Phrase} {o : Operator} :
    ¬ (binary left op right).OutermostComparison (side :: way) l o r := by
  intro ⟨_, _, hreached⟩
  obtain ⟨o', ho', hfalse⟩ := hreached [] (List.nil_prefix) (by simp)
  rw [hasOperator_nil.mp ho', h] at hfalse
  cases hfalse

/-- **The list has all outermost comparisons.** -/
theorem mem_outermost_iff {place : Place} {l r : Phrase} {o : Operator} :
    (place, l, o, r) ∈ t.outermost ↔ t.OutermostComparison place l o r := by
  induction t generalizing place with
  | binary left op right ihleft ihright =>
    rcases hop : op.isComparison with - | - <;> rcases place with - | ⟨side, way⟩
    · have hroot : ¬ (binary left op right).OutermostComparison [] l o r := by
        rw [outermostComparison_nil]
        rintro ⟨heq, hcompares⟩
        cases heq
        rw [hcompares] at hop
        cases hop
      simp [outermost_append hop, hroot]
    · rw [outermost_append hop, outermostComparison_cons hop]
      cases side with
      | left => simp [Side.pick, ihleft]
      | right => simp [Side.pick, ihright]
    · rw [outermost_comparison hop, outermostComparison_nil, List.mem_singleton]
      constructor
      · intro h
        cases h
        exact ⟨rfl, hop⟩
      · rintro ⟨heq, -⟩
        cases heq
        rfl
    · simp [outermost_comparison hop, not_outermostComparison_cons hop]
  | _ =>
    refine iff_of_false (List.not_mem_nil) fun ⟨hfound, _, _⟩ => ?_
    rcases place with - | ⟨side, way⟩ <;> cases hfound

/-- They stand in the list as they stand in the phrase. -/
theorem pairwise_leftOf_outermost (t : Phrase) :
    t.outermost.Pairwise fun earlier later => LeftOf earlier.1 later.1 := by
  induction t with
  | binary left op right ihleft ihright =>
    rcases hop : op.isComparison with - | -
    · rw [outermost_append hop, List.pairwise_append, List.pairwise_map, List.pairwise_map]
      refine ⟨ihleft.imp fun ⟨above, h⟩ => ⟨_, h.cons .left⟩,
        ihright.imp fun ⟨above, h⟩ => ⟨_, h.cons .right⟩, ?_⟩
      simp only [List.mem_map]
      rintro _ ⟨x, -, rfl⟩ _ ⟨y, -, rfl⟩
      exact ⟨[], by simp, by simp⟩
    · rw [outermost_comparison hop]
      exact List.pairwise_singleton _ _
  | _ => exact List.Pairwise.nil

/-! ### The word of a place -/

/-- The connective of a place, found on the way from the root. -/
def tagAt (outside : Connective) : Phrase → Place → Connective
  | .binary left _ _, .left :: way => tagAt outside left way
  | .binary _ op right, .right :: way => tagAt (op.connective?.getD outside) right way
  | _, _ => outside

/-- A word above a place is at the root or further down on the way. -/
theorem behindWord_cons {side : Side} {way above : Place} :
    (binary left op right).BehindWord above (side :: way) k ↔
      above = [] ∧ side = .right ∧ op.connective? = some k ∨
      ∃ above', above = side :: above' ∧ (side.pick left right).BehindWord above' way k := by
  constructor
  · rintro ⟨⟨o, ho, hk⟩, hbehind⟩
    rcases above with - | ⟨side', above⟩
    · rw [hasOperator_nil.mp ho] at hk
      exact .inl ⟨rfl, (List.cons_prefix_cons.mp hbehind).1.symm, hk⟩
    · obtain ⟨rfl, hway⟩ := List.cons_prefix_cons.mp hbehind
      exact .inr ⟨above, rfl, ⟨o, hasOperator_cons.mp ho, hk⟩, hway⟩
  · rintro (⟨rfl, rfl, hk⟩ | ⟨above, rfl, ⟨o, ho, hk⟩, hbehind⟩)
    · exact ⟨⟨op, hasOperator_nil.mpr rfl, hk⟩, by simp⟩
    · exact ⟨⟨o, hasOperator_cons.mpr ho, hk⟩, by simpa using hbehind⟩

theorem not_behindWord_nil {above : Place} : ¬ t.BehindWord above [] k := by
  rintro ⟨-, hbehind⟩
  simp at hbehind

/-- Where a word further down counts, the root does not matter. -/
theorem TaggedWith.cons {side : Side} {way : Place} {outside : Connective}
    (h : (side.pick left right).TaggedWith way outside k)
    (hroot : side = .right → op.connective? = none) :
    (binary left op right).TaggedWith (side :: way) outside k := by
  have hdown : ∀ {above k'}, (binary left op right).BehindWord above (side :: way) k' →
      ∃ above', above = side :: above' ∧ (side.pick left right).BehindWord above' way k' := by
    intro above k' hword
    refine (behindWord_cons.mp hword).resolve_left ?_
    rintro ⟨-, hside, hk⟩
    rw [hroot hside] at hk
    cases hk
  cases h with
  | word hbehind hdeepest =>
    refine .word (behindWord_cons.mpr (.inr ⟨_, rfl, hbehind⟩)) fun above' k' hword => ?_
    obtain ⟨above, rfl, habove⟩ := hdown hword
    simpa using hdeepest above k' habove
  | outside hnone =>
    refine .outside fun above' k' hword => ?_
    obtain ⟨above, -, habove⟩ := hdown hword
    exact hnone above k' habove

/-- To the right of a word, it stands for the one from outside. -/
theorem TaggedWith.cons_right {way : Place} {outside k' : Connective}
    (h : right.TaggedWith way k' k) (hop : op.connective? = some k') :
    (binary left op right).TaggedWith (.right :: way) outside k := by
  cases h with
  | word hbehind hdeepest =>
    refine .word (behindWord_cons.mpr (.inr ⟨_, rfl, hbehind⟩)) fun above' k'' hword => ?_
    rcases behindWord_cons.mp hword with ⟨rfl, -, -⟩ | ⟨above, rfl, habove⟩
    · exact List.nil_prefix
    · simpa using hdeepest above k'' habove
  | outside hnone =>
    refine .word (behindWord_cons.mpr (.inl ⟨rfl, rfl, hop⟩)) fun above' k'' hword => ?_
    rcases behindWord_cons.mp hword with ⟨rfl, -, -⟩ | ⟨above, rfl, habove⟩
    · exact List.nil_prefix
    · exact absurd habove (hnone above k'')

/-- **The word of a place.** -/
theorem taggedWith_tagAt {place : Place} {part : Phrase} (h : t.at? place = some part)
    (outside : Connective) : t.TaggedWith place outside (t.tagAt outside place) := by
  induction place generalizing t outside with
  | nil =>
    have hnil : t.tagAt outside [] = outside := by cases t <;> rfl
    rw [hnil]
    exact .outside fun above k => not_behindWord_nil
  | cons side way ih =>
    obtain ⟨left, op, right, rfl⟩ := exists_eq_binary_of_at? h
    cases side with
    | left =>
      have hleft : (Side.left.pick left right).TaggedWith way outside (left.tagAt outside way) :=
        ih h outside
      exact hleft.cons (by simp)
    | right =>
      rcases hop : op.connective? with - | k
      · have hright : (Side.right.pick left right).TaggedWith way outside
            (right.tagAt outside way) := ih h outside
        rw [tagAt, hop]
        exact hright.cons fun _ => hop
      · have hright : right.TaggedWith way k (right.tagAt k way) := ih h k
        rw [tagAt, hop]
        exact hright.cons_right hop

/-! ### Conditionals -/

/-- The condition of a conditional. -/
def test? : Phrase → Option Phrase
  | .conditional test .. | .conditionalElse test .. => some test
  | _ => none

/-- Whether there is a comparison in front of every `и` and `или`. -/
def opensWithComparison : Phrase → Bool
  | .binary left op _ => op.isComparison || left.opensWithComparison
  | _ => false

/-- The operator of the lowest node above two places is the given connective. -/
def JoinedBy (t : Phrase) (place other : Place) (k : Connective) : Prop :=
  ∃ above op, LowestCommon above place other ∧ t.HasOperator above op ∧ op.connective? = some k

end Phrase

/-! ### The list of a condition -/

namespace Rule

open Phrase

variable {left right t : Phrase} {op : Operator} {k outside : Connective}

/-- The column that a condition keeps of the left side of a comparison. -/
inductive LeftSide : Phrase → Cell → Prop
  | column (c : Cell) : LeftSide (.cell c) c
  | other {left : Phrase} (none : ∀ c, left ≠ .cell c) : LeftSide left ⟨"", 0, 0, ""⟩

/-- The operand that a condition keeps of the right side of a comparison. -/
inductive RightSide : Phrase → Operand → Prop
  | column (c : Cell) : RightSide (.cell c) (.cell c)
  | literal (value : Value) : RightSide (.literal value) (.literal value)
  | other {right : Phrase} (noColumn : ∀ c, right ≠ .cell c) (noLiteral : ∀ v, right ≠ .literal v) :
      RightSide right (.literal .null)

/-- A condition describes the outermost comparison at a place. -/
structure Describes (test : Phrase) (place : Place) (c : Condition) : Prop where
  comparison : ∃ left right, test.OutermostComparison place left c.operator right ∧
    LeftSide left c.cell ∧ RightSide right c.operand
  connective : test.TaggedWith place .first c.connective

theorem leftSide_leftCell (left : Phrase) : LeftSide left (leftCell left) := by
  cases left with
  | cell c => exact .column c
  | _ => exact .other (by simp)

theorem rightSide_rightOperand (right : Phrase) : RightSide right (rightOperand right) := by
  cases right with
  | cell c => exact .column c
  | literal value => exact .literal value
  | _ => exact .other (by simp) (by simp)

theorem conditionsOf_append (h : op.isComparison = false) :
    conditionsOf outside (.binary left op right) =
      conditionsOf outside left ++ conditionsOf (op.connective?.getD outside) right := by
  cases op <;> cases h <;> rfl

/-- The condition that describes a comparison. -/
def entryOf (outside : Connective) (t : Phrase) :
    Place × Phrase × Operator × Phrase → Place × Condition
  | (place, left, op, right) =>
    (place, ⟨leftCell left, op, rightOperand right, t.tagAt outside place⟩)

/-- **The conditions are the outermost comparisons.** -/
theorem conditionsOf_eq_map_outermost (outside : Connective) (t : Phrase) :
    conditionsOf outside t = (t.outermost.map (entryOf outside t)).map Prod.snd := by
  induction t generalizing outside with
  | binary left op right ihleft ihright =>
    rcases hop : op.isComparison with - | -
    · rw [conditionsOf_append hop, outermost_append hop, ihleft, ihright]
      simp only [List.map_append, List.map_map]
      rfl
    · rw [conditionsOf_comparison hop, outermost_comparison hop]
      rfl
  | _ => rfl

/-- The first comparison has the connective from outside. -/
theorem tagAt_of_mem_head? (ht : t.IsCondition) {x : Place × Phrase × Operator × Phrase}
    (hx : x ∈ t.outermost.head?) : t.tagAt outside x.1 = outside := by
  obtain ⟨ks, hks⟩ := exists_connectives_eq_cons ht outside
  obtain ⟨rest, hrest⟩ : ∃ rest, t.outermost = x :: rest := List.head?_eq_some_iff.mp hx
  rw [connectives, conditionsOf_eq_map_outermost, hrest] at hks
  exact (List.cons.inj hks).1

/-- **Neighbours are joined where the ways to them part.** -/
theorem isChain_outermost (ht : t.IsCondition) (outside : Connective) :
    t.outermost.IsChain fun earlier later => ∃ above op, PartAt above earlier.1 later.1 ∧
      t.HasOperator above op ∧ op.connective? = some (t.tagAt outside later.1) := by
  induction ht generalizing outside with
  | comparison hop =>
    rw [outermost_comparison hop]
    exact List.isChain_singleton _
  | @join left right op k hop _ hsecond ihleft ihright =>
    have hcompares : op.isComparison = false := by cases op <;> cases hop <;> rfl
    rw [outermost_append hcompares, List.isChain_append, List.isChain_map, List.isChain_map]
    have hright : ∀ way, (binary left op right).tagAt outside (.right :: way) =
        right.tagAt k way := fun way => by rw [tagAt, hop, Option.getD_some]
    refine ⟨(ihleft outside).imp ?_, (ihright k).imp ?_, ?_⟩
    · rintro x y ⟨above, o, hpart, ho, hk⟩
      exact ⟨.left :: above, o, hpart.cons .left, ho, hk⟩
    · rintro x y ⟨above, o, hpart, ho, hk⟩
      exact ⟨.right :: above, o, hpart.cons .right, ho, hk.trans (congrArg some (hright _).symm)⟩
    · -- the last comparison on the left and the first on the right part at the root
      simp only [List.getLast?_map, List.head?_map, Option.mem_def, Option.map_eq_some_iff]
      rintro _ ⟨x, -, rfl⟩ _ ⟨y, hy, rfl⟩
      refine ⟨[], op, ⟨by simp, by simp⟩, hasOperator_nil.mpr rfl, ?_⟩
      rw [hop, Prod.map_fst, hright, tagAt_of_mem_head? hsecond hy]

theorem exists_rule_of_test? {phrase test : Phrase} (h : phrase.test? = some test) :
    ∃ rule, ofPhrase? phrase = some rule ∧ rule.conditions = conditionsOf .first test := by
  cases phrase with
  | conditional | conditionalElse =>
    cases h
    exact ⟨_, rfl, rfl⟩
  | _ => cases h

/-- Every element of a chain but the first has one before it. -/
theorem exists_rel_of_mem_tail {α : Type} {R : α → α → Prop} {l : List α} (h : l.IsChain R) {y : α}
    (hy : y ∈ l.tail) : ∃ x, R x y := by
  induction h with
  | nil => cases hy
  | singleton => cases hy
  | @cons_cons a b l hab _ ih =>
    rcases List.mem_cons.mp hy with rfl | hy
    · exact ⟨a, hab⟩
    · exact ih hy

/-- Only the first condition has no word. -/
theorem exists_first_of_isCondition (ht : t.IsCondition) :
    ∃ first rest, conditionsOf .first t = first :: rest ∧ first.connective = .first ∧
      ∀ c ∈ rest, c.connective ≠ .first := by
  obtain ⟨first, rest, hconditions, hks⟩ := exists_conditionsOf_eq_cons ht
  rw [connectives, hconditions] at hks
  refine ⟨first, rest, hconditions, (List.cons.inj hks).1, fun c hc => ?_⟩
  have htail : c ∈ (conditionsOf .first t).tail := hconditions ▸ hc
  rw [conditionsOf_eq_map_outermost, ← List.map_tail, ← List.map_tail, List.map_map] at htail
  obtain ⟨y, hy, rfl⟩ := List.mem_map.mp htail
  obtain ⟨x, above, op, -, -, hk⟩ := exists_rel_of_mem_tail (isChain_outermost ht .first) hy
  exact op.connective?_ne_first hk

/-- **The law of flattening.** -/
theorem ofPhrase?_lists_outermost {phrase test : Phrase} (h : phrase.test? = some test) :
    ∃ (rule : Rule) (entries : List (Place × Condition)),
      ofPhrase? phrase = some rule ∧ entries.map Prod.snd = rule.conditions ∧
      (∀ place, (∃ c, (place, c) ∈ entries) ↔
        ∃ left op right, test.OutermostComparison place left op right) ∧
      (entries.Pairwise fun earlier later => LeftOf earlier.1 later.1) ∧
      (∀ place c, (place, c) ∈ entries → Describes test place c) ∧
      (test.IsCondition →
        (∃ first rest, rule.conditions = first :: rest ∧ first.connective = .first ∧
          ∀ c ∈ rest, c.connective ≠ .first) ∧
        entries.IsChain fun earlier later =>
          test.JoinedBy earlier.1 later.1 later.2.connective) := by
  obtain ⟨rule, hrule, hconditions⟩ := exists_rule_of_test? h
  refine ⟨rule, test.outermost.map (entryOf .first test), hrule, ?_, fun place => ?_, ?_, ?_, ?_⟩
  · rw [hconditions, conditionsOf_eq_map_outermost]
  · constructor
    · rintro ⟨c, hc⟩
      obtain ⟨⟨place, left, op, right⟩, hmem, heq⟩ := List.mem_map.mp hc
      cases heq
      exact ⟨left, op, right, mem_outermost_iff.mp hmem⟩
    · rintro ⟨left, op, right, houtermost⟩
      exact ⟨_, List.mem_map.mpr ⟨_, mem_outermost_iff.mpr houtermost, rfl⟩⟩
  · exact List.pairwise_map.mpr (pairwise_leftOf_outermost test)
  · intro place c hc
    obtain ⟨⟨place, left, op, right⟩, hmem, heq⟩ := List.mem_map.mp hc
    cases heq
    have houtermost := mem_outermost_iff.mp hmem
    exact ⟨⟨left, right, houtermost, leftSide_leftCell left, rightSide_rightOperand right⟩,
      taggedWith_tagAt houtermost.found .first⟩
  · intro ht
    refine ⟨hconditions ▸ exists_first_of_isCondition ht, ?_⟩
    refine (List.isChain_map _).mpr ((isChain_outermost ht .first).imp ?_)
    rintro x y ⟨above, op, hpart, hop, hk⟩
    exact ⟨above, op, hpart.lowestCommon, hop, hk⟩

/-- A comparison with nothing on its right side. -/
def isNothing (column : UInt32) : Phrase :=
  .binary (.cell ⟨"10102", 2, column, ""⟩) .eq (.literal .null)

/-- A condition with alternatives to the right of `и`. -/
def alternativesInside : Phrase :=
  .binary (isNothing 1) .and (.binary (isNothing 2) .or (isNothing 3))

/-- The second condition is joined to the first by `и`, the third to the second by `или`, each where
the ways to the two part. -/
theorem ofPhrase?_lists_outermost_alternativesInside :
    ∃ (rule : Rule) (entries : List (Place × Condition)),
      ofPhrase? (.conditional alternativesInside ⟨"10102", 2, 4, ""⟩ (.literal .null)) =
        some rule ∧
      entries.map Prod.snd = rule.conditions ∧
      rule.conditions.map (·.connective) = [.first, .and, .or] ∧
      entries.IsChain fun earlier later =>
        alternativesInside.JoinedBy earlier.1 later.1 later.2.connective := by
  have hphrase : (Phrase.conditional alternativesInside ⟨"10102", 2, 4, ""⟩
      (.literal .null)).test? = some alternativesInside := rfl
  obtain ⟨rule, entries, hrule, hentries, -, -, -, hlaw⟩ := ofPhrase?_lists_outermost hphrase
  have htest : alternativesInside.IsCondition :=
    .join rfl (.comparison rfl) (.join rfl (.comparison rfl) (.comparison rfl))
  refine ⟨rule, entries, hrule, hentries, ?_, (hlaw htest).2⟩
  cases hrule
  rfl

/-! ### The first condition -/

/-- A comparison in front is in the list. -/
theorem conditionsOf_ne_nil (h : t.opensWithComparison = true) : conditionsOf outside t ≠ [] := by
  induction t with
  | binary left op right ihleft _ =>
    rcases hop : op.isComparison with - | -
    · rw [conditionsOf_append hop]
      have hleft : left.opensWithComparison = true := by simpa [opensWithComparison, hop] using h
      simp [ihleft hleft]
    · simp [conditionsOf_comparison hop]
  | _ => cases h

/-- The first condition of a parsed condition has no word if and only if it stands in front of all
words. -/
theorem connective_head_eq_first_iff {test : Phrase} (h : BuiltFrom .condition test)
    {head : Condition} {tail : List Condition}
    (hconditions : conditionsOf .first test = head :: tail) :
    head.connective = .first ↔ test.opensWithComparison = true := by
  induction h generalizing head tail with
  | cell => cases hconditions
  | literal => cases hconditions
  | @binary left right op _ _ hon hjoins _ hlast ihfirst _ =>
    obtain ⟨k, hk, hne⟩ | hcompares := hjoins.condition_cases hon
    · have hopens : (binary left op right).opensWithComparison = left.opensWithComparison := by
        cases op <;> cases hk <;> rfl
      rw [conditionsOf_join hk] at hconditions
      rw [hopens]
      rcases hleft : conditionsOf .first left with - | ⟨first, rest⟩
      · -- nothing on the left: the word goes to the first comparison on the right
        rw [hleft, List.nil_append] at hconditions
        have hhead : head ∈ conditionsOf k right := by simp [hconditions]
        refine iff_of_false (connective_ne_first hlast hne head hhead) fun hopen => ?_
        exact conditionsOf_ne_nil hopen hleft
      · rw [hleft, List.cons_append] at hconditions
        rw [← (List.cons.inj hconditions).1]
        exact ihfirst hleft
    · rw [conditionsOf_comparison hcompares] at hconditions
      rw [← (List.cons.inj hconditions).1]
      simp [opensWithComparison, hcompares]

/-- **When the first condition of a rule has no word.** A source that is accepted as a conditional,
and whose rule has conditions, has words in front of all conditions but the first. The first has
none if and only if the condition of the source opens with a comparison. -/
theorem first_unjoined_iff {source : String} {phrase : Phrase} {rule : Rule} {head : Condition}
    {tail : List Condition} (hparse : Phrase.parse (Token.scan source) = .ok phrase)
    (hrule : ofPhrase? phrase = some rule) (hconditions : rule.conditions = head :: tail) :
    ∃ test, phrase.test? = some test ∧
      (head.connective = .first ↔ test.opensWithComparison = true) ∧
      ∀ c ∈ tail, c.connective = .and ∨ c.connective = .or := by
  obtain ⟨test, htest, hbuilt⟩ : ∃ test, phrase.test? = some test ∧ BuiltFrom .condition test := by
    cases fromSource_of_parse hparse with
    | conditional htest => exact ⟨_, rfl, htest⟩
    | conditionalElse htest => exact ⟨_, rfl, htest⟩
    | assignment => cases hrule
    | comparison => cases hrule
  obtain ⟨rule', hrule', hlist⟩ := exists_rule_of_test? htest
  obtain rfl : rule' = rule := Option.some.inj (hrule'.symm.trans hrule)
  rw [hlist] at hconditions
  refine ⟨test, htest, connective_head_eq_first_iff hbuilt hconditions, fun c hc => ?_⟩
  have hword : c.connective ≠ .first :=
    connective_ne_first_of_mem_tail hbuilt .first c (by rwa [hconditions])
  cases h : c.connective with
  | first => exact absurd h hword
  | and => exact .inl rfl
  | or => exact .inr rfl

/-- Two alternatives: the condition opens with the first of them, and the second has a word. -/
theorem first_unjoined_iff_alternatives :
    ∃ phrase rule head last, Phrase.parse
        (Token.scan "если гр10102212=='да' или гр10102213=='да' то гр10102206='да'") = .ok phrase ∧
      ofPhrase? phrase = some rule ∧ rule.conditions = [head, last] ∧
      head.connective = .first ∧ (last.connective = .and ∨ last.connective = .or) := by
  have hparse : Phrase.parse
      (Token.scan "если гр10102212=='да' или гр10102213=='да' то гр10102206='да'") =
      .ok (.conditional
        (.binary (.binary (.cell ⟨"10102", 2, 12, "10102212"⟩) .eq (.literal (.text "да"))) .or
          (.binary (.cell ⟨"10102", 2, 13, "10102213"⟩) .eq (.literal (.text "да"))))
        ⟨"10102", 2, 6, "10102206"⟩ (.literal (.text "да"))) := by decide +kernel
  obtain ⟨test, htest, hfirst, hwords⟩ := first_unjoined_iff hparse rfl rfl
  refine ⟨_, _, _, _, hparse, rfl, rfl, hfirst.mpr ?_,
    hwords _ (List.mem_singleton_self _)⟩
  cases htest
  decide

/-- A column in place of a comparison: the only condition of the rule is joined by `и`, to
nothing. -/
theorem first_joined_behind_column :
    ∃ phrase rule c, Phrase.parse
        (Token.scan "если гр10102212 и гр10102213=='да' то гр10102206='да'") = .ok phrase ∧
      ofPhrase? phrase = some rule ∧ rule.conditions = [c] ∧ c.connective = .and := by
  refine ⟨.conditional (.binary (.cell ⟨"10102", 2, 12, "10102212"⟩) .and
    (.binary (.cell ⟨"10102", 2, 13, "10102213"⟩) .eq (.literal (.text "да"))))
    ⟨"10102", 2, 6, "10102206"⟩ (.literal (.text "да")), _, _, ?_, rfl, rfl, rfl⟩
  decide +kernel

end Rule

end RegisterRules
