import RegisterRules.Proofs.Outcome
import RegisterRules.Proofs.Readability
import RegisterRules.Proofs.WholeNumber

/-!
# Bare statements are compiled faithfully

An assignment or a comparison becomes one statement of generated code, and the text of the procedure
determines the phrase. So two bare statements have one procedure if and only if they are the same
phrase: different targets, operands, operators or groupings are told apart, and the spelling of the
source leaves no trace.

## The two directions

From the phrase to the text, only the spelling of columns has to be forgotten: the code names a
column by register, part and number.

From the text to the phrase there are three steps. The lines around the statement are the same for
all rules, so the line of the statement is determined. An expression of a phrase has brackets around
every operator, so its text determines it (`Procedure.Expr.Bracketed.eq_of_render_eq`). And the
expression determines the phrase, since numbers of columns are written exactly.

## Main definitions

* `Phrase.equal`: equality of phrases, columns being compared by what they refer to.
* `Token.gist`: what a token says, without its spelling.

## Main results

* `Phrase.BuiltFrom.toExpr_eq_iff`: equal phrases are those with the same expression.
* `Settings.render_inj`: the line of a statement is determined by the procedure.
* `Settings.compile_bare_faithful`: equal phrases are those with the same procedure.
-/

namespace RegisterRules

/-! ### Equality of phrases -/

namespace Phrase

/-- Equality of phrases. Columns are compared by register, part and number, and numbers as numbers;
how they were written does not matter. -/
def equal : Phrase → Phrase → Bool
  | .conditional test target value, .conditional test' target' value' =>
    test.equal test' && target.sameColumn target' && value.equal value'
  | .conditionalElse test target value otherTarget otherValue,
      .conditionalElse test' target' value' otherTarget' otherValue' =>
    test.equal test' && target.sameColumn target' && value.equal value' &&
      otherTarget.sameColumn otherTarget' && otherValue.equal otherValue'
  | .binary left op right, .binary left' op' right' =>
    left.equal left' && op == op' && right.equal right'
  | .assignment target value, .assignment target' value' =>
    target.sameColumn target' && value.equal value'
  | .literal value, .literal value' => value.equal value'
  | .cell c, .cell c' => c.sameColumn c'
  | .operation kind source column, .operation kind' source' column' =>
    kind == kind' && source.sameColumn source' && column == column'
  | .filteredOperation kind source condition column,
      .filteredOperation kind' source' condition' column' =>
    kind == kind' && source.sameColumn source' && condition.equal condition' && column == column'
  | _, _ => false

end Phrase

/-- Literals of a source are equal only if they are the same: none of them is a negative zero. -/
theorem Value.Written.equal_iff {value value' : Value} (h : value.Written) (h' : value'.Written) :
    value.equal value' = true ↔ value = value' := by
  cases value with
  | number x =>
    cases value' with
    | number y =>
      have hx : x.negative = false := h
      have hy : y.negative = false := h'
      obtain ⟨negative, rank, hrank⟩ := x
      obtain ⟨negative', rank', hrank'⟩ := y
      subst hx hy
      simp [Value.equal, Binary64.equal]
    | _ => simp [Value.equal]
  | text s => cases value' <;> simp [Value.equal]
  | bool b => cases h
  | null => cases value' <;> simp [Value.equal]

/-! ### Expressions with all their brackets -/

namespace Procedure

namespace Expr

/-- An expression with all its brackets gets no more of them. -/
theorem Bracketed.withBrackets_eq {e : Expr} (h : Bracketed e) : e.withBrackets = e := by
  have hall : ∀ {args : List Expr}, (∀ arg ∈ args, arg.withBrackets = arg) →
      allWithBrackets args = args := by
    intro args heach
    rw [allWithBrackets_eq_map, List.map_congr_left heach, List.map_id']
  induction h with
  | literal => rfl
  | var => rfl
  | call _ _ ih => rw [withBrackets, hall ih]
  | invoke _ _ _ _ ihreceiver ih => rw [withBrackets, ihreceiver, hall ih]
  | create => rfl
  | lambda _ _ ih => rw [withBrackets, ih]
  | binary _ htight _ _ htighter ihleft ihright =>
    rw [withBrackets, ihleft, ihright, htight, htighter]
    rfl
  | group _ ih => rw [withBrackets, ih]
  | not _ hclosed ih =>
    rw [withBrackets, ih, hclosed]
    rfl

/-- **The text of an expression with all its brackets determines it.** -/
theorem Bracketed.eq_of_render_eq {e f : Expr} (he : Bracketed e) (hf : Bracketed f)
    (h : e.render = f.render) : e = f := by
  have hlegible : ∀ {e : Expr}, Bracketed e → Legible e.lexemes := by
    intro e he
    simpa using he.readsBefore [] trivial (by simp)
  have hchars : e.chars [] = f.chars [] := String.ofList_injective h
  rw [chars_eq, chars_eq, he.withBrackets_eq, hf.withBrackets_eq, List.append_nil,
    List.append_nil] at hchars
  have hlexemes := spell_inj (hlegible he) (hlegible hf) hchars
  exact (he.resolved.whole f hf rfl [] [] (by simp [Position.StopsAt])
    (by simp [Position.StopsAt]) (by rw [hlexemes])).1

end Expr

/-! ### Columns -/

/-- Numbers of columns and parts are told apart. -/
theorem number_inj {m n : ℕ} (hm : m < 2 ^ 53) (hn : n < 2 ^ 53) (h : number m = number n) :
    m = n := by
  obtain ⟨x, hx, hxm⟩ := Binary64.exists_ofNat?_eq hm
  obtain ⟨y, hy, hyn⟩ := Binary64.exists_ofNat?_eq hn
  obtain rfl : x = y := by simpa [number, hx, hy] using h
  exact Option.some.inj (hxm.symm.trans hyn)

/-- Two columns have one address if and only if they are one column. -/
theorem address_eq_iff {c d : Cell} : address c = address d ↔ c.sameColumn d = true := by
  have hpart : ∀ part : UInt8, part.toNat < 2 ^ 53 := fun part =>
    part.toNat_lt.trans (by decide)
  have hcolumn : ∀ column : UInt32, column.toNat < 2 ^ 53 := fun column =>
    column.toNat_lt.trans (by decide)
  constructor
  · intro h
    obtain ⟨hcode, hparts, hcolumns⟩ : c.code = d.code ∧ number c.part.toNat = number d.part.toNat ∧
        number c.column.toNat = number d.column.toNat := by simpa [address, text] using h
    have hparts := UInt8.toNat_inj.mp (number_inj (hpart _) (hpart _) hparts)
    have hcolumns := UInt32.toNat_inj.mp (number_inj (hcolumn _) (hcolumn _) hcolumns)
    simp [Cell.sameColumn, hcode, hparts, hcolumns]
  · intro h
    obtain ⟨⟨hcode, hparts⟩, hcolumns⟩ : (c.code = d.code ∧ c.part = d.part) ∧
        c.column = d.column := by simpa [Cell.sameColumn] using h
    rw [address, address, hcode, hparts, hcolumns]

theorem bracketed_address (c : Cell) : ∀ arg ∈ address c, Expr.Bracketed arg := by
  simpa [address] using ⟨.literal _, .literal _, .literal _⟩

end Procedure

/-! ### Expressions of phrases -/

namespace Phrase

open Grammar Procedure

theorem infixOf_injective : Function.Injective infixOf := by
  intro op op' h
  cases op <;> cases op' <;> first | rfl | cases h

theorem infixOf_mem_known (op : Operator) : infixOf op ∈ Infix.known := by
  cases op <;> decide

/-- The expression of a phrase has all its brackets and stands as one operand. -/
theorem BuiltFrom.exists_bracketed {ladder : Ladder} {phrase : Phrase}
    (h : BuiltFrom ladder phrase) :
    ∃ e, phrase.toExpr = .ok e ∧ e.Bracketed ∧ ∀ tooLoose, e.needsGroup tooLoose = false := by
  induction h with
  | @cell c _ =>
    exact ⟨_, rfl, .call (by decide) (bracketed_address c), fun _ => rfl⟩
  | literal => exact ⟨_, rfl, .literal _, fun _ => rfl⟩
  | @binary left right op _ _ _ _ _ _ ihleft ihright =>
    obtain ⟨l, hl, hbracketed, hneeds⟩ := ihleft
    obtain ⟨r, hr, hbracketed', hneeds'⟩ := ihright
    refine ⟨.group (.binary l (infixOf op) r), by rw [toExpr, hl, hr], ?_, fun _ => rfl⟩
    exact .group (.binary hbracketed (hneeds _) (infixOf_mem_known op) hbracketed' (hneeds' _))

/-- **Equal phrases are those with the same expression.** -/
theorem BuiltFrom.toExpr_eq_iff {ladder ladder' : Ladder} {p q : Phrase} (hp : BuiltFrom ladder p)
    (hq : BuiltFrom ladder' q) : p.toExpr = q.toExpr ↔ p.equal q = true := by
  induction hp generalizing q with
  | @cell c _ =>
    cases hq with
    | @cell d _ => simp [toExpr, cellValue, equal, address_eq_iff]
    | literal => simp [toExpr, cellValue, equal]
    | binary _ _ hleft hright =>
      obtain ⟨l, hl, -⟩ := hleft.exists_bracketed
      obtain ⟨r, hr, -⟩ := hright.exists_bracketed
      simp [toExpr, hl, hr, cellValue, equal]
  | literal hwritten =>
    cases hq with
    | cell => simp [toExpr, cellValue, equal]
    | literal hwritten' => simp [toExpr, equal, hwritten.equal_iff hwritten']
    | binary _ _ hleft hright =>
      obtain ⟨l, hl, -⟩ := hleft.exists_bracketed
      obtain ⟨r, hr, -⟩ := hright.exists_bracketed
      simp [toExpr, hl, hr, equal]
  | binary _ _ hleft hright ihleft ihright =>
    obtain ⟨l, hl, -⟩ := hleft.exists_bracketed
    obtain ⟨r, hr, -⟩ := hright.exists_bracketed
    cases hq with
    | cell => simp [toExpr, hl, hr, cellValue, equal]
    | literal => simp [toExpr, hl, hr, equal]
    | binary _ _ hleft' hright' =>
      obtain ⟨l', hl', -⟩ := hleft'.exists_bracketed
      obtain ⟨r', hr', -⟩ := hright'.exists_bracketed
      rw [equal, Bool.and_eq_true, Bool.and_eq_true, beq_iff_eq, ← ihleft hleft', ← ihright hright']
      simp [toExpr, hl, hr, hl', hr', infixOf_injective.eq_iff, and_assoc]

end Phrase

/-! ### The line of a statement -/

namespace Procedure

theorem blockLines_append (indent depth : ℕ) (before after : List Stmt) :
    Stmt.blockLines indent depth (before ++ after) =
      Stmt.blockLines indent depth before ++ Stmt.blockLines indent depth after := by
  induction before with
  | nil => rfl
  | cons stmt before ih =>
    rw [List.cons_append, Stmt.blockLines, ih, Stmt.blockLines, List.append_assoc]

/-- Lines as text, each with a line break behind it. -/
def joinLines (lines : List String) : String := String.join (lines.map (· ++ "\n"))

theorem joinLines_append (before after : List String) :
    joinLines (before ++ after) = joinLines before ++ joinLines after := by
  rw [joinLines, List.map_append, String.join_append]
  rfl

end Procedure

namespace Settings

open Procedure

/-- The lines in front of the statements of a rule and those behind them do not depend on them. -/
theorem exists_render_eq (settings : Settings) :
    ∃ before after, ∀ stmts, settings.render stmts =
      joinLines (before ++ (Stmt.blockLines settings.indentWidth 1 stmts ++ after)) := by
  let front : List Stmt := [.declare errorsName (.create "List<string>"),
    .declare validName (.literal (.bool true)), .blank]
  let back : List Stmt := [.blank, .ret (.var validName)]
  refine ⟨("public bool " ++ settings.procedureName ++ "()") :: "\x7b" ::
    Stmt.blockLines settings.indentWidth 1 front,
    Stmt.blockLines settings.indentWidth 1 back ++ ["\x7d"], fun stmts => ?_⟩
  have hframe : frame stmts = front ++ (stmts ++ back) := List.append_assoc ..
  rw [Settings.render, Procedure.render, Procedure.lines, hframe, blockLines_append,
    blockLines_append, List.append_assoc, List.append_assoc]
  rfl

/-- **The line of a statement is determined by the procedure**, if it has just one. -/
theorem render_inj {settings : Settings} {stmt stmt' : Stmt} {text text' : String}
    (hline : stmt.lines settings.indentWidth 1 = [line settings.indentWidth 1 text])
    (hline' : stmt'.lines settings.indentWidth 1 = [line settings.indentWidth 1 text'])
    (h : settings.render [stmt] = settings.render [stmt']) : text = text' := by
  obtain ⟨before, after, hrender⟩ := settings.exists_render_eq
  rw [hrender, hrender, joinLines_append, joinLines_append, joinLines_append, joinLines_append,
    String.append_right_inj, String.append_left_inj] at h
  simpa [Stmt.blockLines, hline, hline', joinLines, line] using h

end Settings

/-! ### Bare statements -/

namespace Phrase

open Procedure

/-- The statement that carries out a bare phrase. -/
inductive Executes : Phrase → Stmt → Prop
  | assignment {target : Cell} {value : Phrase} {e : Expr} (amount : BuiltFrom .amount value)
      (expr : value.toExpr = .ok e) : Executes (.assignment target value) (setCell target e)
  | comparison {left right : Phrase} {op : Operator} {e : Expr}
      (condition : BuiltFrom .condition (.binary left op right))
      (expr : toExpr (.binary left op right) = .ok e) :
      Executes (.binary left op right) (.andAssign validName e)

theorem FromSource.exists_executes {phrase : Phrase} (h : FromSource phrase)
    (hbare : phrase.isConditional = false) :
    ∃ stmt, phrase.statements = .ok [stmt] ∧ Executes phrase stmt := by
  cases h with
  | conditional | conditionalElse => cases hbare
  | assignment _ hamount =>
    obtain ⟨e, he⟩ := hamount.exists_toExpr
    refine ⟨_, ?_, .assignment hamount he⟩
    simp only [statements, Rule.ofPhrase?, he]
  | @comparison c right hcolumn hright =>
    have hbuilt : BuiltFrom .condition (.binary (.cell c) .eq right) :=
      .binary rfl .eq (.cell hcolumn) hright
    obtain ⟨e, he⟩ := hbuilt.exists_toExpr
    refine ⟨_, ?_, .comparison hbuilt he⟩
    simp only [statements, Rule.ofPhrase?, he]

theorem BuiltFrom.bracketed_of_toExpr {ladder : Grammar.Ladder} {phrase : Phrase} {e : Expr}
    (h : BuiltFrom ladder phrase) (he : phrase.toExpr = .ok e) : e.Bracketed := by
  obtain ⟨e', he', hbracketed, -⟩ := h.exists_bracketed
  rw [he] at he'
  cases he'
  exact hbracketed

/-- **Bare phrases are equal if and only if their procedures are.** -/
theorem Executes.render_eq_iff {p q : Phrase} {stmt stmt' : Stmt} (hp : Executes p stmt)
    (hq : Executes q stmt') (settings : Settings) :
    settings.render [stmt] = settings.render [stmt'] ↔ p.equal q = true := by
  have hset : ∀ {target : Cell} {e : Expr}, e.Bracketed →
      Expr.Bracketed (.call "SetCellValue" (address target ++ [e])) := by
    intro target e he
    exact .call (by decide) (List.forall_mem_append.mpr
      ⟨bracketed_address target, by simpa using he⟩)
  cases hp with
  | @assignment target value e hamount he =>
    cases hq with
    | @assignment target' value' e' hamount' he' =>
      rw [equal, Bool.and_eq_true, ← address_eq_iff, ← hamount.toExpr_eq_iff hamount', he, he']
      constructor
      · intro h
        have htext := Settings.render_inj rfl rfl h
        have hcall := (hset (hamount.bracketed_of_toExpr he)).eq_of_render_eq
          (hset (hamount'.bracketed_of_toExpr he')) (by simpa using htext)
        simpa [address, and_assoc] using hcall
      · rintro ⟨haddress, hvalue⟩
        rw [setCell, setCell, haddress, Except.ok.inj hvalue]
    | comparison hbuilt' he' =>
      refine iff_of_false (fun h => ?_) (by simp [equal])
      have htext := congrArg String.toList (Settings.render_inj rfl rfl h)
      simp [Expr.render, Expr.chars, validName] at htext
  | comparison hbuilt he =>
    cases hq with
    | assignment hamount' he' =>
      refine iff_of_false (fun h => ?_) (by simp [equal])
      have htext := congrArg String.toList (Settings.render_inj rfl rfl h)
      simp [Expr.render, Expr.chars, validName] at htext
    | comparison hbuilt' he' =>
      rw [← hbuilt.toExpr_eq_iff hbuilt', he, he']
      constructor
      · intro h
        have htext := Settings.render_inj rfl rfl h
        rw [(hbuilt.bracketed_of_toExpr he).eq_of_render_eq (hbuilt'.bracketed_of_toExpr he')
          (by simpa using htext)]
      · intro h
        rw [Except.ok.inj h]

end Phrase

/-! ### Spellings -/

/-- What a token says: its kind, the text of a number or a string, and the column of a reference.
Its place, the letters of a keyword or a mark, and the zeros in front of a column are left out. -/
def Token.gist (t : Token) : Token.Kind × Option String × Option (TableId × UInt32) :=
  (t.kind,
    if t.kind = .number ∨ t.kind = .string then some t.text else none,
    if t.kind = .identifier then (Cell.decode? t.text).map fun c => (c.table, c.column) else none)

theorem Token.kind_of_gist {t u : Token} (h : t.gist = u.gist) : u.kind = t.kind :=
  (congrArg Prod.fst h).symm

theorem Token.text_of_gist {t u : Token} (h : t.gist = u.gist)
    (hkind : t.kind = .number ∨ t.kind = .string) : u.text = t.text := by
  have hkinds := Token.kind_of_gist h
  have htexts := congrArg (fun gist => gist.2.1) h
  simp only [Token.gist, hkinds, if_pos hkind, Option.some.injEq] at htexts
  exact htexts.symm

namespace Phrase

open Grammar

/-- A token that says the same column spells it, perhaps with other digits. -/
theorem Grammar.IsColumn.exists_of_gist {t u : Token} {c : Cell} (h : IsColumn t c)
    (hgist : t.gist = u.gist) : ∃ d, IsColumn u d ∧ c.sameColumn d = true := by
  have hkind : u.kind = .identifier := (Token.kind_of_gist hgist).trans h.kind
  have haddress := congrArg (fun gist => gist.2.2) hgist
  simp only [Token.gist, h.kind, hkind, if_true, h.decoded, Option.map_some] at haddress
  obtain ⟨d, hdecode, hsame⟩ := Option.map_eq_some_iff.mp haddress.symm
  refine ⟨d, ⟨?_, hdecode⟩, ?_⟩
  · rw [Cell.decode?] at hdecode
    split at hdecode
    · next hmark => rw [Token.isCell, hkind, hmark]; rfl
    · cases hdecode
  · simp only [Cell.table, Prod.mk.injEq, TableId.mk.injEq] at hsame
    simp [Cell.sameColumn, hsame]

/-- Tokens that say the same derive equal phrases. -/
theorem Grammar.Derives.exists_of_gist {symbol : Symbol} {opened : ℕ} {word word' : List Token}
    {phrase : Phrase} (h : Derives symbol opened word phrase)
    (hgist : word.map Token.gist = word'.map Token.gist) :
    ∃ phrase', Derives symbol opened word' phrase' ∧ phrase.equal phrase' = true := by
  have hsingle : ∀ {t : Token} {word' : List Token}, [t].map Token.gist = word'.map Token.gist →
      ∃ u, word' = [u] ∧ t.gist = u.gist := by
    intro t word' h
    obtain ⟨u, rest, rfl, hu, hrest⟩ := List.map_eq_cons_iff.mp h.symm
    obtain rfl := List.map_eq_nil_iff.mp hrest
    exact ⟨u, rfl, hu.symm⟩
  induction h generalizing word' with
  | item _ ih =>
    obtain ⟨phrase', hderives, hequal⟩ := ih hgist
    exact ⟨phrase', .item hderives, hequal⟩
  | @join _ _ _ _ t op _ _ _ hjoins _ ihleft ihright =>
    rw [List.map_append, List.map_cons] at hgist
    obtain ⟨before, rest, rfl, hbefore, hrest⟩ := List.map_eq_append_iff.mp hgist.symm
    obtain ⟨u, after, rfl, hu, hafter⟩ := List.map_eq_cons_iff.mp hrest
    obtain ⟨left', hleft, hequal⟩ := ihleft hbefore.symm
    obtain ⟨right', hright, hequal'⟩ := ihright hafter.symm
    rw [← Token.kind_of_gist hu.symm] at hjoins
    exact ⟨_, .join hleft hjoins hright, by simp [equal, hequal, hequal']⟩
  | column hcolumn =>
    obtain ⟨u, rfl, hu⟩ := hsingle hgist
    obtain ⟨d, hd, hsame⟩ := hcolumn.exists_of_gist hu
    exact ⟨_, .column hd, hsame⟩
  | @number _ _ t x hkind hread =>
    obtain ⟨u, rfl, hu⟩ := hsingle hgist
    rw [← Token.text_of_gist hu (.inl hkind)] at hread
    exact ⟨_, .number ((Token.kind_of_gist hu).trans hkind) hread, by simp [equal, Value.equal]⟩
  | @string _ _ t hkind =>
    obtain ⟨u, rfl, hu⟩ := hsingle hgist
    have htext := Token.text_of_gist hu (.inr hkind)
    exact ⟨_, .string ((Token.kind_of_gist hu).trans hkind), by simp [equal, Value.equal, htext]⟩
  | nothing hkind =>
    obtain ⟨u, rfl, hu⟩ := hsingle hgist
    exact ⟨_, .nothing ((Token.kind_of_gist hu).trans hkind), rfl⟩
  | brackets hroom hopening _ hclosing ih =>
    rw [List.map_cons, List.map_append] at hgist
    obtain ⟨o, rest, rfl, ho, hrest⟩ := List.map_eq_cons_iff.mp hgist.symm
    obtain ⟨word, last, rfl, hword, hlast⟩ := List.map_eq_append_iff.mp hrest
    obtain ⟨c, rfl, hc⟩ := hsingle hlast.symm
    obtain ⟨phrase', hderives, hequal⟩ := ih hword.symm
    exact ⟨phrase', .brackets hroom ((Token.kind_of_gist ho.symm).trans hopening) hderives
      ((Token.kind_of_gist hc).trans hclosing), hequal⟩

/-- **Bare statements whose tokens say the same are equal phrases.** -/
theorem Grammar.Spells.exists_of_gist {word word' : List Token} {phrase : Phrase}
    (h : Spells word phrase) (hbare : phrase.isConditional = false)
    (hgist : word.map Token.gist = word'.map Token.gist) :
    ∃ phrase', Spells word' phrase' ∧ phrase.equal phrase' = true := by
  -- both kinds start with a column and a sign
  have hstart : ∀ {t e : Token} {c : Cell} {word word' : List Token}, IsColumn t c →
      (t :: e :: word).map Token.gist = word'.map Token.gist →
      ∃ u f d rest, word' = u :: f :: rest ∧ IsColumn u d ∧ c.sameColumn d = true ∧
        f.kind = e.kind ∧ word.map Token.gist = rest.map Token.gist := by
    intro t e c word word' hcolumn hgist
    obtain ⟨u, rest, rfl, hu, hrest⟩ := List.map_eq_cons_iff.mp hgist.symm
    obtain ⟨f, rest, rfl, hf, hrest⟩ := List.map_eq_cons_iff.mp hrest
    obtain ⟨d, hd, hsame⟩ := hcolumn.exists_of_gist hu.symm
    exact ⟨u, f, d, rest, rfl, hd, hsame, Token.kind_of_gist hf.symm, hrest.symm⟩
  cases h with
  | conditional | conditionalElse => cases hbare
  | assignment hassigns =>
    obtain ⟨hcolumn, hassign, hamount⟩ := hassigns
    obtain ⟨u, f, d, rest, rfl, hd, hsame, hf, hrest⟩ := hstart hcolumn hgist
    obtain ⟨value', hvalue, hequal⟩ := hamount.exists_of_gist hrest
    exact ⟨_, .assignment (.intro hd (hf.trans hassign) hvalue), by simp [equal, hsame, hequal]⟩
  | comparison hcolumn hequals hright =>
    obtain ⟨u, f, d, rest, rfl, hd, hsame, hf, hrest⟩ := hstart hcolumn hgist
    obtain ⟨right', hright', hequal⟩ := hright.exists_of_gist hrest
    exact ⟨_, .comparison hd (hf.trans hequals) hright', by simp [equal, hsame, hequal]⟩

theorem map_gist_content (tokens : List Token) :
    (content tokens).map Token.gist =
      (tokens.map Token.gist).takeWhile fun gist => gist.1 ≠ .endOfInput := by
  rw [List.takeWhile_map]
  rfl

end Phrase

namespace Settings

/-- **Bare statements are compiled faithfully.** Two sources that are accepted, neither of them as a
conditional, both have a procedure, and they have the same one if and only if their phrases are
equal. In particular they have the same one if their tokens say the same, whatever the places, the
letters of keywords and marks and the zeros in front of columns. -/
theorem compile_bare_faithful (settings : Settings) {source source' : String} {p q : Phrase}
    (hparse : Phrase.parse (Token.scan source) = .ok p)
    (hparse' : Phrase.parse (Token.scan source') = .ok q)
    (hbare : p.isConditional = false) (hbare' : q.isConditional = false) :
    ∃ text text', settings.compile source = .ok text ∧ settings.compile source' = .ok text' ∧
      (text = text' ↔ p.equal q = true) ∧
      ((Token.scan source).map Token.gist = (Token.scan source').map Token.gist →
        text = text') := by
  obtain ⟨stmt, hstmt, hexecutes⟩ := (Phrase.fromSource_of_parse hparse).exists_executes hbare
  obtain ⟨stmt', hstmt', hexecutes'⟩ := (Phrase.fromSource_of_parse hparse').exists_executes hbare'
  have hiff := hexecutes.render_eq_iff hexecutes' settings
  refine ⟨settings.render [stmt], settings.render [stmt'], ?_, ?_, hiff, fun hgist => ?_⟩
  · rw [settings.compile_of_parse hparse, hstmt]
    rfl
  · rw [settings.compile_of_parse hparse', hstmt']
    rfl
  · have hcontent : (Phrase.content (Token.scan source)).map Token.gist =
        (Phrase.content (Token.scan source')).map Token.gist := by
      rw [Phrase.map_gist_content, hgist, Phrase.map_gist_content]
    obtain ⟨q', hspells, hequal⟩ :=
      (Phrase.parse_eq_ok_iff.mp hparse).exists_of_gist hbare hcontent
    have hq' : Phrase.parse (Token.scan source') = .ok q' := Phrase.parse_eq_ok_iff.mpr hspells
    rw [hparse'] at hq'
    cases hq'
    exact hiff.mpr hequal

/-- A product in small letters. -/
def smallProduct : String := "гр10102206 = (гр10102207 + 1.5) * 2"

/-- The same product in capital letters, on two lines, with more zeros and more brackets. -/
def capitalProduct : String := "ГР101022006=((гР1010220007+1.50))\n*(2.)"

/-- Both have one procedure. -/
theorem compile_bare_faithful_product :
    ∃ p q, Phrase.parse (Token.scan smallProduct) = .ok p ∧
      Phrase.parse (Token.scan capitalProduct) = .ok q ∧ p ≠ q ∧
      ∀ settings : Settings, ∃ text, settings.compile smallProduct = .ok text ∧
        settings.compile capitalProduct = .ok text := by
  have hparse : Phrase.parse (Token.scan smallProduct) = .ok (.assignment
      ⟨"10102", 2, 6, "10102206"⟩ (.binary (.binary (.cell ⟨"10102", 2, 7, "10102207"⟩) .add
        (.literal (.number ⟨false, 4609434218613702656, by decide⟩))) .mul
        (.literal (.number ⟨false, 4611686018427387904, by decide⟩)))) := by decide +kernel
  have hparse' : Phrase.parse (Token.scan capitalProduct) = .ok (.assignment
      ⟨"10102", 2, 6, "101022006"⟩ (.binary (.binary (.cell ⟨"10102", 2, 7, "1010220007"⟩) .add
        (.literal (.number ⟨false, 4609434218613702656, by decide⟩))) .mul
        (.literal (.number ⟨false, 4611686018427387904, by decide⟩)))) := by decide +kernel
  refine ⟨_, _, hparse, hparse', by decide, fun settings => ?_⟩
  obtain ⟨text, text', htext, htext', hiff, -⟩ :=
    compile_bare_faithful settings hparse hparse' rfl rfl
  obtain rfl : text = text' := hiff.mpr (by decide)
  exact ⟨text, htext, htext'⟩

end Settings

end RegisterRules
