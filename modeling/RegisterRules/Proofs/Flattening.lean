import Mathlib.Data.List.Basic
import RegisterRules.Procedure.OfRule

/-!
# What flattening keeps of a condition

A rule keeps the comparisons of a condition in a list and forgets how they were grouped. The test on
a row is built from that list by joining from left to right. This module says for which conditions
the test still means what the condition means.

## Truth of occurrences

A truth assignment `v : ℕ → Bool` gives a value to every occurrence of a comparison, counted from
the left. Equal comparisons at two places may get different values. A condition and a test have the
same occurrences in the same order, so one assignment serves both; the second operand of a
connective reads it behind the occurrences of the first.

## The separating assignments

Let a node join `left` and `right` by a connective, and let `right` hold a node of the other one.
Give every occurrence in `right` the value that is neutral for the outer connective, and every
occurrence in `left` the other value. The condition takes the value of `left`. The test does not:
the connective of the inner node makes it turn to the neutral value, and nothing turns it back. An
offence further down on the left shows as well, since there are values for the occurrences on the
right that make the outer node as well as the joining pass on what they get (`exists_neutral`).

## Main definitions

* `Phrase.truth`, `Procedure.Expr.truth`: the value of a condition and of a test.
* `Phrase.IsCondition`: conditions made of `и`, `или` and comparisons.
* `Phrase.junctions`: the nodes of `и` and `или` in a condition.
* `Rule.readColumn`, `Rule.atom`: a column and a comparison as a test spells them.

## Main results

* `Rule.truth_rowTest`: the test on a row is the joining from left to right.
* `Rule.joinAll_connectives_of_unmixed`: what a condition without such nodes keeps.
* `Rule.exists_separation_of_mixed`: where a condition with one differs from its list.
* `Rule.rowTest_faithful_iff`: the exact extent to which flattening keeps the meaning.
-/

namespace RegisterRules

/-! ### Connectives as functions -/

namespace Connective

/-- The truth of a condition and the next one, joined by the connective of the next. -/
def holds : Connective → Bool → Bool → Bool
  | .or, x, y => x || y
  | .and, x, y | .first, x, y => x && y

/-- The value that changes nothing under a connective. -/
def neutral : Connective → Bool
  | .or => false
  | .and | .first => true

@[simp] theorem holds_neutral_right (k : Connective) (x : Bool) : k.holds x k.neutral = x := by
  cases k <;> cases x <;> rfl

@[simp] theorem holds_not_neutral_left (k : Connective) (x : Bool) :
    k.holds (!k.neutral) x = !k.neutral := by
  cases k <;> cases x <;> rfl

@[simp] theorem holds_self (k : Connective) (x : Bool) : k.holds x x = x := by
  cases k <;> cases x <;> rfl

theorem holds_assoc (k : Connective) (x y z : Bool) :
    k.holds (k.holds x y) z = k.holds x (k.holds y z) := by
  cases k <;> cases x <;> cases y <;> cases z <;> rfl

/-- A connective with another neutral value turns to the value that it is given. -/
theorem holds_not_of_neutral_ne {k : Connective} {b : Bool} (h : k.neutral ≠ b) :
    k.holds (!b) b = b := by
  cases k <;> cases b <;> simp_all [neutral, holds]

theorem neutral_ne_of_ne {k k' : Connective} (h : k ≠ k') (hk : k ≠ .first) (hk' : k' ≠ .first) :
    k.neutral ≠ k'.neutral := by
  cases k <;> cases k' <;> simp_all [neutral]

/-- Join the next occurrences to a value that is already there, from left to right. -/
def joinAll : Bool → List Connective → (ℕ → Bool) → Bool
  | x, [], _ => x
  | x, k :: ks, v => joinAll (k.holds x (v 0)) ks fun i => v (i + 1)

theorem joinAll_append (x : Bool) (ks ks' : List Connective) (v : ℕ → Bool) :
    joinAll x (ks ++ ks') v = joinAll (joinAll x ks v) ks' fun i => v (ks.length + i) := by
  induction ks generalizing x v with
  | nil => simp [joinAll]
  | cons k ks ih =>
    rw [List.cons_append, joinAll, joinAll, ih]
    congr 1
    funext i
    rw [List.length_cons]
    congr 1
    omega

theorem joinAll_congr (x : Bool) {ks : List Connective} {v w : ℕ → Bool}
    (h : ∀ i < ks.length, v i = w i) : joinAll x ks v = joinAll x ks w := by
  induction ks generalizing x v w with
  | nil => rfl
  | cons k ks ih =>
    rw [joinAll, joinAll, h 0 (by simp)]
    refine ih _ fun i hi => h (i + 1) ?_
    rw [List.length_cons]
    omega

/-- Where all occurrences agree with the value that is there, it stays. -/
theorem joinAll_const (b : Bool) (ks : List Connective) : joinAll b ks (fun _ => b) = b := by
  induction ks with
  | nil => rfl
  | cons k ks ih => rw [joinAll, holds_self, ih]

/-- Where they all have the other value, one connective with another neutral value makes it turn. -/
theorem joinAll_not_const {b : Bool} {ks : List Connective} {k : Connective} (hk : k ∈ ks)
    (hne : k.neutral ≠ b) : joinAll (!b) ks (fun _ => b) = b := by
  induction ks with
  | nil => cases hk
  | cons k' ks ih =>
    rw [joinAll]
    by_cases h : k'.neutral = b
    · subst h
      rw [holds_neutral_right]
      refine ih ((List.mem_cons.mp hk).resolve_left ?_)
      rintro rfl
      exact hne rfl
    · rw [holds_not_of_neutral_ne h, joinAll_const]

end Connective

/-! ### Tests -/

namespace Procedure.Expr

/-- The occurrences of a test from left to right: what `&&`, `||` and brackets are around. -/
def atoms : Expr → List Expr
  | .binary left op right =>
    match op with
    | .or | .and => left.atoms ++ right.atoms
    | op => [.binary left op right]
  | .group inner => inner.atoms
  | e => [e]

/-- The value of a test under a truth assignment to its occurrences. -/
def truth : Expr → (ℕ → Bool) → Bool
  | .binary left op right, v =>
    match op with
    | .or => left.truth v || right.truth fun i => v (left.atoms.length + i)
    | .and => left.truth v && right.truth fun i => v (left.atoms.length + i)
    | _ => v 0
  | .group inner, v => inner.truth v
  | _, v => v 0

end Procedure.Expr

namespace Rule

open Procedure

variable {primary : TableId}

theorem atoms_conditionTest {c : Condition} (h : c.operator.isComparison = true) :
    (conditionTest primary c).atoms.map .group = [conditionTest primary c] := by
  obtain ⟨cell, op, operand, k⟩ := c
  cases op <;> cases h <;> rfl

theorem length_atoms_conditionTest {c : Condition} (h : c.operator.isComparison = true) :
    (conditionTest primary c).atoms.length = 1 := by
  rw [← List.length_map, atoms_conditionTest h, List.length_singleton]

theorem truth_conditionTest {c : Condition} (h : c.operator.isComparison = true) (v : ℕ → Bool) :
    (conditionTest primary c).truth v = v 0 := by
  obtain ⟨cell, op, operand, k⟩ := c
  cases op <;> cases h <;> rfl

theorem atoms_binary_joinOf (k : Connective) (left right : Expr) :
    (Expr.binary left (joinOf k) right).atoms = left.atoms ++ right.atoms := by
  cases k <;> rfl

theorem truth_binary_joinOf (k : Connective) (left right : Expr) (v : ℕ → Bool) :
    (Expr.binary left (joinOf k) right).truth v =
      k.holds (left.truth v) (right.truth fun i => v (left.atoms.length + i)) := by
  cases k <;> rfl

theorem atoms_joined {conditions : List Condition}
    (h : ∀ c ∈ conditions, c.operator.isComparison = true) (test : Expr) :
    (joined primary test conditions).atoms.map .group =
      test.atoms.map .group ++ conditions.map (conditionTest primary) := by
  induction conditions generalizing test with
  | nil => simp [joined]
  | cons c rest ih =>
    have hc : c.operator.isComparison = true := h c (List.mem_cons_self ..)
    have hrest := ih (fun d hd => h d (List.mem_cons_of_mem c hd))
      (.binary test (joinOf c.connective) (conditionTest primary c))
    rw [atoms_binary_joinOf, List.map_append, atoms_conditionTest hc] at hrest
    rw [show joined primary test (c :: rest) = joined primary
      (.binary test (joinOf c.connective) (conditionTest primary c)) rest from rfl, hrest]
    simp

theorem truth_joined {conditions : List Condition}
    (h : ∀ c ∈ conditions, c.operator.isComparison = true) (test : Expr) (v : ℕ → Bool) :
    (joined primary test conditions).truth v =
      Connective.joinAll (test.truth v) (conditions.map (·.connective))
        fun i => v (test.atoms.length + i) := by
  induction conditions generalizing test with
  | nil => rfl
  | cons c rest ih =>
    have hc : c.operator.isComparison = true := h c (List.mem_cons_self ..)
    rw [show joined primary test (c :: rest) = joined primary
      (.binary test (joinOf c.connective) (conditionTest primary c)) rest from rfl,
      ih fun d hd => h d (List.mem_cons_of_mem c hd), truth_binary_joinOf, truth_conditionTest hc,
      atoms_binary_joinOf, List.length_append, length_atoms_conditionTest hc, List.map_cons,
      Connective.joinAll]
    congr 1
    funext i
    congr 1
    omega

/-- The occurrences of the test on a row are the tests of the conditions. -/
theorem atoms_rowTest {first : Condition} {rest : List Condition}
    (h : ∀ c ∈ first :: rest, c.operator.isComparison = true) :
    (rowTest primary (first :: rest)).atoms.map .group =
      (first :: rest).map (conditionTest primary) := by
  obtain ⟨hfirst, hrest⟩ := List.forall_mem_cons.mp h
  rw [rowTest, atoms_joined hrest, atoms_conditionTest hfirst]
  rfl

/-- **The test on a row joins from left to right.** The connective of the first condition joins it
to nothing. -/
theorem truth_rowTest {first : Condition} {rest : List Condition}
    (h : ∀ c ∈ first :: rest, c.operator.isComparison = true) (v : ℕ → Bool) :
    (rowTest primary (first :: rest)).truth v =
      Connective.joinAll (v 0) (rest.map (·.connective)) fun i => v (i + 1) := by
  obtain ⟨hfirst, hrest⟩ := List.forall_mem_cons.mp h
  rw [rowTest, truth_joined hrest, truth_conditionTest hfirst, length_atoms_conditionTest hfirst]
  congr 1
  funext i
  rw [Nat.add_comm]

end Rule

/-! ### Conditions -/

/-- The connective that an operator is. -/
def Operator.connective? : Operator → Option Connective
  | .or => some .or
  | .and => some .and
  | _ => none

namespace Phrase

variable {left right t : Phrase} {op : Operator} {k : Connective}

/-- A condition of `и` and `или` over comparisons, grouped in any way. A comparison is a leaf,
whatever it compares. -/
inductive IsCondition : Phrase → Prop
  | comparison {left right : Phrase} {op : Operator} (comparing : op.isComparison = true) :
      IsCondition (.binary left op right)
  | join {left right : Phrase} {op : Operator} {k : Connective} (joining : op.connective? = some k)
      (first : IsCondition left) (second : IsCondition right) : IsCondition (.binary left op right)

/-- The comparisons of a condition from left to right, each with its operator between its sides. -/
def comparisons : Phrase → List (Phrase × Operator × Phrase)
  | .binary left op right =>
    match op with
    | .or | .and => left.comparisons ++ right.comparisons
    | op => [(left, op, right)]
  | _ => []

/-- The value of a condition under a truth assignment to its comparisons. -/
def truth : Phrase → (ℕ → Bool) → Bool
  | .binary left op right, v =>
    match op with
    | .or => left.truth v || right.truth fun i => v (left.comparisons.length + i)
    | .and => left.truth v && right.truth fun i => v (left.comparisons.length + i)
    | _ => v 0
  | _, v => v 0

/-- The nodes of `и` and `или` in a condition, each with its connective and what stands to the right
of it. -/
def junctions : Phrase → List (Connective × Phrase)
  | .binary left op right =>
    match op.connective? with
    | some k => (k, right) :: (left.junctions ++ right.junctions)
    | none => []
  | _ => []

theorem comparisons_join (h : op.connective? = some k) :
    (binary left op right).comparisons = left.comparisons ++ right.comparisons := by
  cases op <;> cases h <;> rfl

theorem truth_join (h : op.connective? = some k) (v : ℕ → Bool) :
    (binary left op right).truth v =
      k.holds (left.truth v) (right.truth fun i => v (left.comparisons.length + i)) := by
  cases op <;> cases h <;> rfl

theorem junctions_join (h : op.connective? = some k) :
    (binary left op right).junctions = (k, right) :: (left.junctions ++ right.junctions) := by
  cases op <;> cases h <;> rfl

theorem comparisons_comparison (h : op.isComparison = true) :
    (binary left op right).comparisons = [(left, op, right)] := by
  cases op <;> cases h <;> rfl

theorem truth_comparison (h : op.isComparison = true) (v : ℕ → Bool) :
    (binary left op right).truth v = v 0 := by
  cases op <;> cases h <;> rfl

theorem junctions_comparison (h : op.isComparison = true) :
    (binary left op right).junctions = [] := by
  cases op <;> cases h <;> rfl

theorem truth_congr {v w : ℕ → Bool} (ht : t.IsCondition)
    (h : ∀ i < t.comparisons.length, v i = w i) : t.truth v = t.truth w := by
  induction ht generalizing v w with
  | comparison hop =>
    rw [truth_comparison hop, truth_comparison hop, h 0 (by simp [comparisons_comparison hop])]
  | join hop _ _ ihleft ihright =>
    rw [comparisons_join hop, List.length_append] at h
    rw [truth_join hop, truth_join hop, ihleft fun i hi => h i (by omega),
      ihright fun i hi => h _ (by omega)]

/-- Where all comparisons have one value, the condition has it too. -/
theorem truth_const (ht : t.IsCondition) (b : Bool) : t.truth (fun _ => b) = b := by
  induction ht with
  | comparison hop => rw [truth_comparison hop]
  | join hop _ _ ihleft ihright => rw [truth_join hop, ihleft, ihright, Connective.holds_self]

/-- A node inside what stands to the right of a node is a node of the whole condition. -/
theorem junctions_subset {node : Connective × Phrase} (hnode : node ∈ t.junctions) :
    node.2.junctions ⊆ t.junctions := by
  induction t with
  | binary left op right ihleft ihright =>
    rcases hop : op.connective? with - | k
    · simp [junctions, hop] at hnode
    rw [junctions_join hop] at hnode ⊢
    rcases List.mem_cons.mp hnode with rfl | hnode
    · exact fun inner hinner => by simp [hinner]
    · rcases List.mem_append.mp hnode with hnode | hnode
      · exact fun inner hinner => by simp [ihleft hnode hinner]
      · exact fun inner hinner => by simp [ihright hnode hinner]
  | _ => simp [junctions] at hnode

/-- The connective of a node is `и` or `или`. -/
theorem fst_ne_first_of_mem_junctions {node : Connective × Phrase} (hnode : node ∈ t.junctions) :
    node.1 ≠ .first := by
  induction t with
  | binary left op right ihleft ihright =>
    rcases hop : op.connective? with - | k
    · simp [junctions, hop] at hnode
    rw [junctions_join hop] at hnode
    rcases List.mem_cons.mp hnode with rfl | hnode
    · cases op <;> cases hop <;> simp
    · exact (List.mem_append.mp hnode).elim ihleft ihright
  | _ => simp [junctions] at hnode

/-- No node has a node of the other connective to its right. -/
def Unmixed (t : Phrase) : Prop :=
  ∀ node ∈ t.junctions, ∀ inner ∈ node.2.junctions, inner.1 = node.1

theorem unmixed_comparison (h : op.isComparison = true) : (binary left op right).Unmixed := by
  simp [Unmixed, junctions_comparison h]

/-- A node is unmixed if its left side is and its right side has no other connective at all. -/
theorem unmixed_join (h : op.connective? = some k) :
    (binary left op right).Unmixed ↔ left.Unmixed ∧ ∀ inner ∈ right.junctions, inner.1 = k := by
  rw [Unmixed, junctions_join h]
  constructor
  · intro hall
    exact ⟨fun node hnode => hall node (by simp [hnode]), hall (k, right) (by simp)⟩
  · rintro ⟨hleft, hright⟩ node hnode inner hinner
    rcases List.mem_cons.mp hnode with rfl | hnode
    · exact hright inner hinner
    rcases List.mem_append.mp hnode with hnode | hnode
    · exact hleft node hnode inner hinner
    · rw [hright node hnode, hright inner (junctions_subset hnode hinner)]

theorem unmixed_iff : t.Unmixed ↔
    (∀ node ∈ t.junctions, node.1 = .and → ∀ inner ∈ node.2.junctions, inner.1 ≠ .or) ∧
    (∀ node ∈ t.junctions, node.1 = .or → ∀ inner ∈ node.2.junctions, inner.1 ≠ .and) := by
  constructor
  · intro h
    constructor <;> intro node hnode hk inner hinner <;> rw [h node hnode inner hinner, hk] <;>
      decide
  · rintro ⟨hand, hor⟩ node hnode inner hinner
    have hfirst := fst_ne_first_of_mem_junctions hnode
    have hinnerFirst := fst_ne_first_of_mem_junctions (junctions_subset hnode hinner)
    rcases hk : node.1 with - | - | -
    · exact absurd hk hfirst
    · have := hand node hnode hk inner hinner
      cases h : inner.1 <;> simp_all
    · have := hor node hnode hk inner hinner
      cases h : inner.1 <;> simp_all

end Phrase

/-! ### The flat list of a condition -/

namespace Rule

open Phrase

variable {left right t : Phrase} {op : Operator} {k inherited : Connective}

theorem conditionsOf_join (h : op.connective? = some k) :
    conditionsOf inherited (.binary left op right) =
      conditionsOf inherited left ++ conditionsOf k right := by
  cases op <;> cases h <;> rfl

theorem conditionsOf_comparison (h : op.isComparison = true) :
    conditionsOf inherited (.binary left op right) =
      [⟨leftCell left, op, rightOperand right, inherited⟩] := by
  cases op <;> cases h <;> rfl

/-- An operator that compares nothing puts two lists together. -/
theorem exists_conditionsOf_eq_append (h : op.isComparison = false) (left right : Phrase)
    (inherited : Connective) :
    ∃ k, conditionsOf inherited (.binary left op right) =
      conditionsOf inherited left ++ conditionsOf k right := by
  cases op <;> cases h <;> exact ⟨_, rfl⟩

/-- The connectives in the flat list of a condition. -/
def connectives (inherited : Connective) (t : Phrase) : List Connective :=
  (conditionsOf inherited t).map (·.connective)

theorem connectives_join (h : op.connective? = some k) :
    connectives inherited (.binary left op right) =
      connectives inherited left ++ connectives k right := by
  rw [connectives, conditionsOf_join h, List.map_append, connectives, connectives]

theorem connectives_comparison (h : op.isComparison = true) :
    connectives inherited (.binary left op right) = [inherited] := by
  rw [connectives, conditionsOf_comparison h, List.map_singleton]

theorem length_connectives (ht : t.IsCondition) :
    (connectives inherited t).length = t.comparisons.length := by
  induction ht generalizing inherited with
  | comparison hop => rw [connectives_comparison hop, comparisons_comparison hop]; rfl
  | join hop _ _ ihleft ihright =>
    rw [connectives_join hop, comparisons_join hop, List.length_append, List.length_append, ihleft,
      ihright]

/-- The first comparison takes the connective from outside. -/
theorem exists_connectives_eq_cons (ht : t.IsCondition) (inherited : Connective) :
    ∃ ks, connectives inherited t = inherited :: ks := by
  induction ht generalizing inherited with
  | comparison hop => exact ⟨[], connectives_comparison hop⟩
  | join hop _ _ ihleft _ =>
    obtain ⟨ks, hks⟩ := ihleft inherited
    exact ⟨_, by rw [connectives_join hop, hks, List.cons_append]⟩

/-- The connective of every node stands in the flat list: the first comparison to the right of the
node takes it. -/
theorem mem_connectives_of_mem_junctions (ht : t.IsCondition) {node : Connective × Phrase}
    (hnode : node ∈ t.junctions) : node.1 ∈ connectives inherited t := by
  induction ht generalizing inherited with
  | comparison hop => simp [junctions_comparison hop] at hnode
  | @join _ _ _ k hop _ hright ihleft ihright =>
    rw [junctions_join hop] at hnode
    rw [connectives_join hop]
    rcases List.mem_cons.mp hnode with rfl | hnode
    · obtain ⟨ks, hks⟩ := exists_connectives_eq_cons hright k
      simp [hks]
    · rcases List.mem_append.mp hnode with hnode | hnode
      · exact List.mem_append_left _ (ihleft hnode)
      · exact List.mem_append_right _ (ihright hnode)

/-- A column as a test on a row spells it: a column of the table that the rows are of is read from
the row, any other from its own table. -/
def readColumn (primary : TableId) (c : Cell) : Procedure.Expr :=
  if c.code = primary.code ∧ c.part = primary.part then
    .invoke (.var "row") "GetValue" [Procedure.number c.column.toNat]
  else
    .call "GetCellValue"
      [.literal (.text c.code), Procedure.number c.part.toNat, Procedure.number c.column.toNat]

/-- A comparison as a test on a row spells it. Where the left side is no column, a blank one is
read; where the right side is neither a column nor a literal, the comparison is with nothing. -/
def atom (primary : TableId) (left : Phrase) (op : Operator) (right : Phrase) : Procedure.Expr :=
  .binary
    (match left with
      | .cell c => readColumn primary c
      | _ => readColumn primary ⟨"", 0, 0, ""⟩)
    (.ofSymbol op.symbol)
    (match right with
      | .cell c => readColumn primary c
      | .literal value => .literal value
      | _ => .literal .null)

theorem columnAt_eq_readColumn (primary : TableId) (c : Cell) :
    columnAt primary c = readColumn primary c := by
  simp only [columnAt, readColumn, Cell.table_eq_iff]
  rfl

/-- The test of a comparison is its spelling, in brackets. -/
theorem conditionTest_eq_atom (primary : TableId) (hop : op.isComparison = true)
    (left right : Phrase) (k : Connective) :
    conditionTest primary ⟨leftCell left, op, rightOperand right, k⟩ =
      .group (atom primary left op right) := by
  have hinfix : Procedure.infixOf op = .ofSymbol op.symbol := by cases op <;> cases hop <;> rfl
  simp only [conditionTest, atom, columnAt_eq_readColumn, hinfix]
  cases left <;> cases right <;> rfl

/-- The tests of the list are those of the comparisons. -/
theorem map_conditionTest_conditionsOf (primary : TableId) (ht : t.IsCondition) :
    (conditionsOf inherited t).map (conditionTest primary) =
      t.comparisons.map fun (left, op, right) => .group (atom primary left op right) := by
  induction ht generalizing inherited with
  | comparison hop =>
    rw [conditionsOf_comparison hop, comparisons_comparison hop, List.map_singleton,
      conditionTest_eq_atom primary hop, List.map_singleton]
  | join hop _ _ ihleft ihright =>
    rw [conditionsOf_join hop, comparisons_join hop, List.map_append, List.map_append, ihleft,
      ihright]

/-- Whatever the phrase is, its list holds comparisons only. -/
theorem isComparison_of_mem_conditionsOf {c : Condition} (h : c ∈ conditionsOf inherited t) :
    c.operator.isComparison = true := by
  induction t generalizing inherited with
  | binary left op right ihleft ihright =>
    by_cases hop : op.isComparison = true
    · rw [conditionsOf_comparison hop, List.mem_singleton] at h
      rw [h]
      exact hop
    · obtain ⟨k, hk⟩ :=
        exists_conditionsOf_eq_append (Bool.not_eq_true _ ▸ hop) left right inherited
      rw [hk] at h
      exact (List.mem_append.mp h).elim ihleft ihright
  | _ => cases h

/-- The list of a condition starts with a comparison that is joined to nothing. -/
theorem exists_conditionsOf_eq_cons (ht : t.IsCondition) :
    ∃ first rest, conditionsOf .first t = first :: rest ∧
      connectives .first t = .first :: rest.map (·.connective) := by
  obtain ⟨ks, hks⟩ := exists_connectives_eq_cons ht .first
  obtain ⟨first, rest, hconditions, -, -⟩ := List.map_eq_cons_iff.mp hks
  rw [connectives, hconditions, List.map_cons, List.cons.injEq] at hks
  exact ⟨first, rest, hconditions, by rw [connectives, hconditions, List.map_cons, hks.1]⟩

/-- The connectives of the list decide the value of the test. -/
theorem truth_rowTest_conditionsOf (primary : TableId) (ht : t.IsCondition) (v : ℕ → Bool) :
    (rowTest primary (conditionsOf .first t)).truth v =
      Connective.joinAll true (connectives .first t) v := by
  obtain ⟨first, rest, hconditions, hks⟩ := exists_conditionsOf_eq_cons ht
  have hall : ∀ c ∈ first :: rest, c.operator.isComparison = true := fun c hc =>
    isComparison_of_mem_conditionsOf (hconditions ▸ hc)
  rw [hks, hconditions, truth_rowTest hall]
  rfl

/-- The occurrences of the test are those of the condition, in the same order. -/
theorem atoms_rowTest_conditionsOf (primary : TableId) (ht : t.IsCondition) :
    (rowTest primary (conditionsOf .first t)).atoms =
      t.comparisons.map fun (left, op, right) => atom primary left op right := by
  obtain ⟨first, rest, hconditions, -⟩ := exists_conditionsOf_eq_cons ht
  have hall : ∀ c ∈ first :: rest, c.operator.isComparison = true := fun c hc =>
    isComparison_of_mem_conditionsOf (hconditions ▸ hc)
  -- the brackets around the comparisons are put back on both sides
  refine List.map_injective_iff.mpr (fun _ _ => Procedure.Expr.group.inj) ?_
  rw [hconditions, atoms_rowTest hall, ← hconditions, List.map_map]
  exact map_conditionTest_conditionsOf primary ht

/-- A condition with one connective only may be joined to anything by that connective. -/
theorem joinAll_connectives_of_uniform (ht : t.IsCondition)
    (hk : ∀ node ∈ t.junctions, node.1 = k) (x : Bool) (v : ℕ → Bool) :
    Connective.joinAll x (connectives k t) v = k.holds x (t.truth v) := by
  induction ht generalizing x v with
  | comparison hop => rw [connectives_comparison hop, truth_comparison hop]; rfl
  | @join left right op k' hop hleft hright ihleft ihright =>
    rw [junctions_join hop] at hk
    obtain rfl : k' = k := hk (k', right) (by simp)
    rw [connectives_join hop, Connective.joinAll_append,
      ihleft fun node hnode => hk node (by simp [hnode]),
      ihright fun node hnode => hk node (by simp [hnode]), truth_join hop, Connective.holds_assoc,
      length_connectives hleft]

/-- **Flattening keeps unmixed conditions.** -/
theorem joinAll_connectives_of_unmixed (ht : t.IsCondition) (hunmixed : t.Unmixed) (v : ℕ → Bool) :
    Connective.joinAll true (connectives .first t) v = t.truth v := by
  induction ht generalizing v with
  | comparison hop => rw [connectives_comparison hop, truth_comparison hop]; rfl
  | join hop hleft hright ihleft _ =>
    obtain ⟨hunmixedLeft, huniform⟩ := (unmixed_join hop).mp hunmixed
    rw [connectives_join hop, Connective.joinAll_append, ihleft hunmixedLeft,
      joinAll_connectives_of_uniform hright huniform, truth_join hop, length_connectives hleft]

/-! ### Separating assignments -/

/-- The first `n` occurrences take their values from `v`, the others from `w`. -/
def splice (n : ℕ) (v w : ℕ → Bool) : ℕ → Bool := fun i => if i < n then v i else w (i - n)

theorem splice_shift (n : ℕ) (v w : ℕ → Bool) : (fun i => splice n v w (n + i)) = w := by
  funext i
  rw [splice, if_neg (by omega), Nat.add_sub_cancel_left]

theorem splice_of_lt {n i : ℕ} (h : i < n) (v w : ℕ → Bool) : splice n v w i = v i := by
  simp [splice, h]

/-- Under a spliced assignment a node takes its two sides apart. -/
theorem truth_splice (hop : op.connective? = some k) (hleft : left.IsCondition) (v w : ℕ → Bool) :
    (binary left op right).truth (splice left.comparisons.length v w) =
      k.holds (left.truth v) (right.truth w) := by
  rw [truth_join hop, splice_shift, truth_congr hleft fun i hi => splice_of_lt hi v w]

/-- And so does the joining of its list. -/
theorem joinAll_splice (hop : op.connective? = some k) (hleft : left.IsCondition) (x : Bool)
    (v w : ℕ → Bool) :
    Connective.joinAll x (connectives inherited (.binary left op right))
        (splice left.comparisons.length v w) =
      Connective.joinAll (Connective.joinAll x (connectives inherited left) v)
        (connectives k right) w := by
  rw [connectives_join hop, Connective.joinAll_append, length_connectives hleft, splice_shift]
  congr 1
  refine Connective.joinAll_congr x fun i hi => splice_of_lt ?_ v w
  rwa [length_connectives hleft] at hi

/-- Some values of the occurrences are passed over by the joining and by the connective in front. -/
theorem exists_neutral (ht : t.IsCondition) (k : Connective) :
    ∃ w, (∀ x, Connective.joinAll x (connectives k t) w = x) ∧ t.truth w = k.neutral := by
  induction ht generalizing k with
  | comparison hop =>
    refine ⟨fun _ => k.neutral, fun x => ?_, truth_comparison hop _⟩
    rw [connectives_comparison hop, Connective.joinAll, Connective.joinAll,
      Connective.holds_neutral_right]
  | @join left _ _ k' hop hleft _ ihleft ihright =>
    obtain ⟨v, hv, hvtruth⟩ := ihleft k
    obtain ⟨w, hw, hwtruth⟩ := ihright k'
    refine ⟨splice left.comparisons.length v w, fun x => ?_, ?_⟩
    · rw [joinAll_splice hop hleft, hv, hw]
    · rw [truth_splice hop hleft, hvtruth, hwtruth, Connective.holds_neutral_right]

/-- A node of the other connective on the right separates a node from its list. -/
theorem exists_separation_at_root (hop : op.connective? = some k) (hleft : left.IsCondition)
    (hright : right.IsCondition) {node : Connective × Phrase} (hnode : node ∈ right.junctions)
    (hne : node.1.neutral ≠ k.neutral) :
    ∃ v, Connective.joinAll true (connectives .first (.binary left op right)) v ≠
      (binary left op right).truth v := by
  refine ⟨splice left.comparisons.length (fun _ => !k.neutral) fun _ => k.neutral, ?_⟩
  have hlist : Connective.joinAll true (connectives .first left) (fun _ => !k.neutral) =
      !k.neutral := by
    obtain ⟨ks, hks⟩ := exists_connectives_eq_cons hleft .first
    rw [hks, Connective.joinAll,
      show Connective.first.holds true (!k.neutral) = !k.neutral from rfl,
      Connective.joinAll_const]
  rw [joinAll_splice hop hleft, hlist, truth_splice hop hleft, truth_const hleft,
    Connective.holds_not_neutral_left,
    Connective.joinAll_not_const (mem_connectives_of_mem_junctions hright hnode) hne]
  simp

/-- **A mixed condition differs from its list somewhere.** The offence is at the root, or it is
somewhere on the left and the right side lets it through. -/
theorem exists_separation_of_mixed (ht : t.IsCondition) (hmixed : ¬ t.Unmixed) :
    ∃ v, Connective.joinAll true (connectives .first t) v ≠ t.truth v := by
  induction ht with
  | comparison hop => exact absurd (unmixed_comparison hop) hmixed
  | @join left right op k hop hleft hright ihleft _ =>
    by_cases hunmixed : left.Unmixed
    · have hother : ∃ node ∈ right.junctions, node.1 ≠ k := by
        by_contra hnone
        push Not at hnone
        exact hmixed ((unmixed_join hop).mpr ⟨hunmixed, hnone⟩)
      obtain ⟨node, hnode, hne⟩ := hother
      have hroot : (k, right) ∈ (binary left op right).junctions := by simp [junctions_join hop]
      exact exists_separation_at_root hop hleft hright hnode
        (Connective.neutral_ne_of_ne hne (fst_ne_first_of_mem_junctions hnode)
          (fst_ne_first_of_mem_junctions hroot))
    · obtain ⟨v, hv⟩ := ihleft hunmixed
      obtain ⟨w, hw, hwtruth⟩ := exists_neutral hright k
      refine ⟨splice left.comparisons.length v w, ?_⟩
      rwa [joinAll_splice hop hleft, hw, truth_splice hop hleft, hwtruth,
        Connective.holds_neutral_right]

/-- **The exact extent to which flattening keeps the meaning.** The test on a row has the
comparisons of the condition as its occurrences, in the same order. It has the value of the
condition under every assignment of truth values to them if and only if no `и` has an `или` inside
what stands to its right and no `или` has an `и` there. -/
theorem rowTest_faithful_iff (primary : TableId) (condition : Phrase)
    (hcondition : condition.IsCondition) :
    (rowTest primary (conditionsOf .first condition)).atoms =
        (condition.comparisons.map fun (left, op, right) => atom primary left op right) ∧
      ((∀ v : ℕ → Bool,
          (rowTest primary (conditionsOf .first condition)).truth v = condition.truth v) ↔
        (∀ node ∈ condition.junctions, node.1 = .and →
          ∀ inner ∈ node.2.junctions, inner.1 ≠ .or) ∧
        (∀ node ∈ condition.junctions, node.1 = .or →
          ∀ inner ∈ node.2.junctions, inner.1 ≠ .and)) := by
  refine ⟨atoms_rowTest_conditionsOf primary hcondition, ?_⟩
  rw [← unmixed_iff]
  constructor
  · intro hagree
    by_contra hmixed
    obtain ⟨v, hv⟩ := exists_separation_of_mixed hcondition hmixed
    exact hv (by rw [← truth_rowTest_conditionsOf primary hcondition, hagree v])
  · intro hunmixed v
    rw [truth_rowTest_conditionsOf primary hcondition,
      joinAll_connectives_of_unmixed hcondition hunmixed]

/-- A column is compared with a text. -/
def confirmed : Phrase := .binary (.cell ⟨"10102", 2, 12, "10102212"⟩) .eq (.literal (.text "да"))

/-- Two columns of one table are compared. -/
def exceeded : Phrase :=
  .binary (.cell ⟨"10102", 2, 13, "10102213"⟩) .gt (.cell ⟨"10102", 2, 14, "10102214"⟩)

/-- A column of another table is compared with nothing. -/
def elsewhere : Phrase := .binary (.cell ⟨"10201", 2, 5, "10201205"⟩) .ne (.literal .null)

/-- Brackets to the left of `и` are kept, the grouping to the right of `или` is lost. -/
theorem rowTest_faithful_left_only :
    (∀ v : ℕ → Bool,
      (rowTest ⟨"10102", 2⟩ (conditionsOf .first
        (.binary (.binary confirmed .or exceeded) .and elsewhere))).truth v =
      (Phrase.binary (.binary confirmed .or exceeded) .and elsewhere).truth v) ∧
    ¬∀ v : ℕ → Bool,
      (rowTest ⟨"10102", 2⟩ (conditionsOf .first
        (.binary confirmed .or (.binary exceeded .and elsewhere)))).truth v =
      (Phrase.binary confirmed .or (.binary exceeded .and elsewhere)).truth v := by
  have hconfirmed : confirmed.IsCondition := .comparison rfl
  have hexceeded : exceeded.IsCondition := .comparison rfl
  have helsewhere : elsewhere.IsCondition := .comparison rfl
  rw [(rowTest_faithful_iff _ _ (.join rfl (.join rfl hconfirmed hexceeded) helsewhere)).2,
    (rowTest_faithful_iff _ _ (.join rfl hconfirmed (.join rfl hexceeded helsewhere))).2]
  decide

end Rule

end RegisterRules
