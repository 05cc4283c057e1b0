import Mathlib.Tactic.Common
import RegisterRules.Phrase.Parser

/-!
# The grammar of rules

What a token sequence may be, said without the parser. A condition `E` and an assigned value `V` are
ladders of binary operators, every level grouping to the left, and both end in the same operands:

```
E → E Or C | C        V → V (Plus | Minus) T | T
C → C And K | K       T → T (Multiply | Divide) P(V) | P(V)
K → K cmp P(E) | P(E)
P(X) → cell | Number | String | Empty | LParen X RParen
A → cell Assign V
S → If E Then A [Else A] | cell Assign V | cell Equals E
```

The five levels share one pair of productions, since they differ only in the tokens that join their
items. `Level.Joins` lists those tokens, `Level.item` says what is joined.

## The bound on brackets

A derivation counts the brackets that are open around its word. A bracket may be opened inside fewer
than 64 others, and the production for brackets is the only one that looks at the count.

## Main definitions

* `Phrase.Grammar.Derives`: the words of conditions and values, with their phrases.
* `Phrase.Grammar.Assigns`, `Phrase.Grammar.Spells`: the words of assignments and of whole rules.
-/

namespace RegisterRules

namespace Phrase

namespace Grammar

/-- The two ladders. -/
inductive Ladder where
  /-- Conditions, `E`. -/
  | condition
  /-- Assigned values, `V`. -/
  | amount
deriving DecidableEq

/-- The levels of the ladders, in each of them the loosest first. -/
inductive Level where
  | alternatives | requirements | comparisons
  | sums | products
deriving DecidableEq

/-- What a word of an expression can be derived from: a level, or an operand with a whole ladder in
its brackets. -/
inductive Symbol where
  | level (level : Level)
  | operand (inside : Ladder)
deriving DecidableEq

/-- The loosest level of a ladder. -/
def Ladder.top : Ladder → Level
  | .condition => .alternatives
  | .amount => .sums

/-- What the operators of a level join. -/
def Level.item : Level → Symbol
  | .alternatives => .level .requirements
  | .requirements => .level .comparisons
  | .comparisons => .operand .condition
  | .sums => .level .products
  | .products => .operand .amount

/-- The tokens that join the items of a level, each with the operator it stands for. -/
inductive Level.Joins : Level → Token.Kind → Operator → Prop
  | or : Level.Joins .alternatives .orWord .or
  | and : Level.Joins .requirements .andWord .and
  | eq : Level.Joins .comparisons .equals .eq
  | ne : Level.Joins .comparisons .notEquals .ne
  | gt : Level.Joins .comparisons .greater .gt
  | ge : Level.Joins .comparisons .greaterOrEqual .ge
  | lt : Level.Joins .comparisons .less .lt
  | le : Level.Joins .comparisons .lessOrEqual .le
  | add : Level.Joins .sums .plus .add
  | sub : Level.Joins .sums .minus .sub
  | mul : Level.Joins .products .multiply .mul
  | div : Level.Joins .products .divide .div

theorem Level.Joins.isComparison {kind : Token.Kind} {op : Operator}
    (h : Level.Joins .comparisons kind op) : op.isComparison = true := by
  cases h <;> rfl

theorem Level.Joins.eq_or {kind : Token.Kind} {op : Operator}
    (h : Level.Joins .alternatives kind op) : op = .or := by
  cases h
  rfl

/-- A token that spells a column: a name with the mark `гр` that decodes. -/
structure IsColumn (t : Token) (c : Cell) : Prop where
  marked : t.isCell = true
  decoded : Cell.decode? t.text = some c

/-- `Derives symbol opened word phrase`: inside `opened` brackets, the word comes from the symbol
and has the phrase. -/
inductive Derives : Symbol → ℕ → List Token → Phrase → Prop
  | item {level : Level} {opened : ℕ} {word : List Token} {phrase : Phrase}
      (single : Derives level.item opened word phrase) :
      Derives (.level level) opened word phrase
  | join {level : Level} {opened : ℕ} {before after : List Token} {t : Token} {op : Operator}
      {left right : Phrase} (first : Derives (.level level) opened before left)
      (joined : level.Joins t.kind op) (last : Derives level.item opened after right) :
      Derives (.level level) opened (before ++ t :: after) (.binary left op right)
  | column {inside : Ladder} {opened : ℕ} {t : Token} {c : Cell} (spelled : IsColumn t c) :
      Derives (.operand inside) opened [t] (.cell c)
  | number {inside : Ladder} {opened : ℕ} {t : Token} {x : Binary64} (kind : t.kind = .number)
      (read : Numeral.read? t.text.toList = some x) :
      Derives (.operand inside) opened [t] (.literal (.number x))
  | string {inside : Ladder} {opened : ℕ} {t : Token} (kind : t.kind = .string) :
      Derives (.operand inside) opened [t] (.literal (.text t.text))
  | nothing {inside : Ladder} {opened : ℕ} {t : Token} (kind : t.kind = .emptyWord) :
      Derives (.operand inside) opened [t] (.literal .null)
  | brackets {inside : Ladder} {opened : ℕ} {word : List Token} {phrase : Phrase} {o c : Token}
      (room : opened < 64) (opening : o.kind = .openParen)
      (content : Derives (.level inside.top) (opened + 1) word phrase)
      (closing : c.kind = .closeParen) :
      Derives (.operand inside) opened (o :: (word ++ [c])) phrase

/-- The words of assignments, each with its target and value. -/
inductive Assigns : List Token → Cell → Phrase → Prop
  | intro {t e : Token} {target : Cell} {word : List Token} {value : Phrase}
      (column : IsColumn t target) (assign : e.kind = .assign)
      (amount : Derives (.level .sums) 0 word value) : Assigns (t :: e :: word) target value

/-- The words of rules, each with its phrase. -/
inductive Spells : List Token → Phrase → Prop
  | conditional {first next : Token} {word branch : List Token} {test value : Phrase}
      {target : Cell} (begins : first.kind = .ifWord)
      (condition : Derives (.level .alternatives) 0 word test) (goesOn : next.kind = .thenWord)
      (assigns : Assigns branch target value) :
      Spells (first :: (word ++ next :: branch)) (.conditional test target value)
  | conditionalElse {first next last : Token} {word branch otherBranch : List Token}
      {test value otherValue : Phrase} {target otherTarget : Cell} (begins : first.kind = .ifWord)
      (condition : Derives (.level .alternatives) 0 word test) (goesOn : next.kind = .thenWord)
      (assigns : Assigns branch target value) (otherwise : last.kind = .elseWord)
      (otherAssigns : Assigns otherBranch otherTarget otherValue) :
      Spells (first :: (word ++ next :: (branch ++ last :: otherBranch)))
        (.conditionalElse test target value otherTarget otherValue)
  | assignment {word : List Token} {target : Cell} {value : Phrase}
      (assigns : Assigns word target value) : Spells word (.assignment target value)
  | comparison {t e : Token} {c : Cell} {word : List Token} {right : Phrase}
      (column : IsColumn t c) (equals : e.kind = .equals)
      (condition : Derives (.level .alternatives) 0 word right) :
      Spells (t :: e :: word) (.binary (.cell c) .eq right)

end Grammar

end Phrase

end RegisterRules
