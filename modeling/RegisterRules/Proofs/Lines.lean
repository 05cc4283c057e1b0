import RegisterRules.Proofs.Faithful

/-!
# The lines of a procedure

The literals and comments of a procedure hold texts of a rule, and these may hold anything, line
breaks included. None of them gets out of its line: a literal has its line breaks escaped, and in a
comment they become spaces. So if the names are free of line breaks, then the text falls apart into
the lines that were written, and the place of a statement can be told without its text.

## Where a statement stands

A statement takes one line, and a conditional the lines of its body and three more. That alone says
on which line of a block a statement or a brace stands (`Stands`), however deep it is nested, and
what is written on that line is the indentation of its depth and its own text
(`getElem?_blockLines`). The induction is on `Stands`: a step into a conditional goes one deeper and
two lines down, and a step past a statement goes down by the height of that statement.

## Main definitions

* `Text.Unbroken`: a text without line breaks.
* `Procedure.names`: the names in a procedure.
* `Procedure.Stmt.blockHeight`: how many lines statements take.
* `Procedure.Stands`: what stands on which line of a block, and how deep.
* `Procedure.LaidOut`: the lines of a procedure hold what stands on them.

## Main results

* `Procedure.unbroken_lines`: the lines of a procedure have no line breaks if its names have none.
* `Procedure.toList_joinLines`, `Procedure.splitOn_joinLines`: the text of lines, and back.
* `Procedure.Stands.getElem?_blockLines`: what is written where something stands.
* `Procedure.exists_stands`: something stands on every line.
* `Procedure.laidOut_render`: the text of a procedure falls apart into its lines.
-/

namespace RegisterRules

/-! ### Texts without line breaks -/

namespace Text

/-- A text without line breaks: neither line feed nor carriage return. -/
def Unbroken (text : List Char) : Prop := ∀ c ∈ text, c ≠ '\n' ∧ c ≠ '\r'

-- the search for an instance may find one that runs through all characters
instance (text : List Char) : Decidable (Unbroken text) := List.decidableBAll _ text

variable {c : Char} {text rest : List Char}

@[simp] theorem unbroken_nil : Unbroken [] := by simp [Unbroken]

@[simp] theorem unbroken_cons :
    Unbroken (c :: text) ↔ (c ≠ '\n' ∧ c ≠ '\r') ∧ Unbroken text := List.forall_mem_cons

@[simp] theorem unbroken_append : Unbroken (text ++ rest) ↔ Unbroken text ∧ Unbroken rest :=
  List.forall_mem_append

theorem Unbroken.newline_not_mem (h : Unbroken text) : '\n' ∉ text := fun hmem => (h _ hmem).1 rfl

theorem Unbroken.return_not_mem (h : Unbroken text) : '\r' ∉ text := fun hmem => (h _ hmem).2 rfl

theorem Flat.unbroken (h : Flat text) : Unbroken text := fun c hc => ⟨(h c hc).1, (h c hc).2.1⟩

theorem unbroken_replicate (n : ℕ) : Unbroken (List.replicate n ' ') := by
  intro c hc
  rw [List.eq_of_mem_replicate hc]
  decide

theorem unbroken_of_isDigit (h : ∀ c ∈ text, c.isDigit = true) : Unbroken text := by
  intro c hc
  constructor <;>
  · rintro rfl
    exact absurd (h _ hc) (by decide)

end Text

open Text

/-! ### Literals and comments -/

/-- The spelling of a value in generated code has no line breaks. -/
theorem Value.unbroken_literal (value : Value) : Unbroken value.literal.toList := by
  cases value with
  | number x =>
    obtain ⟨whole, fraction, htext, -, hwhole, hfraction, -⟩ := Binary64.exists_digits x
    have hsign : Unbroken (if x.negative then ['-'] else []) := by split <;> decide
    have hpoint : Unbroken (if fraction = [] then [] else '.' :: fraction) := by
      split
      · exact unbroken_nil
      · simpa using unbroken_of_isDigit hfraction
    rw [Value.literal, Value.display, htext, Number.pointed, unbroken_append, unbroken_append]
    · exact ⟨hsign, unbroken_of_isDigit hwhole, hpoint⟩
    · simp
  | text s =>
    rw [Value.literal, String.toList_ofList]
    exact (Value.flat_quoted s).unbroken
  | bool b => cases b <;> decide
  | null => decide

namespace Procedure

theorem unbroken_oneLine (text : String) : Unbroken (oneLine text).toList := by
  rw [oneLine, String.toList_ofList]
  intro c hc
  obtain ⟨d, -, rfl⟩ := List.mem_map.mp hc
  split_ifs with h
  · decide
  · exact ⟨fun hd => h (.inr hd), fun hd => h (.inl hd)⟩

/-! ### Names -/

namespace Expr

mutual

/-- The names in an expression: variables, functions, methods, types, parameters and operators. -/
def names : Expr → List String
  | .literal _ => []
  | .var name => [name]
  | .call function args => function :: argNames args
  | .invoke receiver method args => receiver.names ++ method :: argNames args
  | .create type => [type]
  | .lambda param body => param :: body.names
  | .binary left op right => left.names ++ op.symbol :: right.names
  | .group inner | .not inner => inner.names

/-- The names in arguments. -/
def argNames : List Expr → List String
  | [] => []
  | arg :: args => arg.names ++ argNames args

end

end Expr

mutual

/-- The names in a statement. -/
def Stmt.names : Stmt → List String
  | .comment _ | .blank => []
  | .declare name value | .andAssign name value => name :: value.names
  | .run value | .ret value => value.names
  | .ifThen condition body => condition.names ++ Stmt.blockNames body

/-- The names in several statements. -/
def Stmt.blockNames : List Stmt → List String
  | [] => []
  | stmt :: rest => stmt.names ++ Stmt.blockNames rest

end

theorem Stmt.blockNames_append (before after : List Stmt) :
    Stmt.blockNames (before ++ after) = Stmt.blockNames before ++ Stmt.blockNames after := by
  induction before with
  | nil => rfl
  | cons stmt before ih =>
    rw [List.cons_append, Stmt.blockNames, Stmt.blockNames, ih, List.append_assoc]

/-- The names in a procedure: its own and those in its body. -/
def names (p : Procedure) : List String := p.name :: Stmt.blockNames p.body

/-- Names without line breaks. -/
def UnbrokenNames (names : List String) : Prop := ∀ name ∈ names, Unbroken name.toList

instance (names : List String) : Decidable (UnbrokenNames names) := List.decidableBAll _ names

section

variable {name : String} {names more : List String}

@[simp] theorem unbrokenNames_nil : UnbrokenNames [] := by simp [UnbrokenNames]

@[simp] theorem unbrokenNames_cons :
    UnbrokenNames (name :: names) ↔ Unbroken name.toList ∧ UnbrokenNames names :=
  List.forall_mem_cons

@[simp] theorem unbrokenNames_append :
    UnbrokenNames (names ++ more) ↔ UnbrokenNames names ∧ UnbrokenNames more :=
  List.forall_mem_append

end

/-! ### Expressions and statements keep to their lines -/

namespace Expr

theorem unbroken_grouped (needed : Bool) {text : List Char → List Char}
    (htext : ∀ {tail}, Unbroken tail → Unbroken (text tail)) {tail : List Char}
    (htail : Unbroken tail) : Unbroken (grouped needed text tail) := by
  rw [grouped]
  split
  · have hclosed : Unbroken (')' :: tail) := by simpa using htail
    simpa using htext hclosed
  · exact htext htail

mutual

/-- An expression whose names have no line breaks is written without any. -/
theorem unbroken_chars : ∀ {e : Expr}, UnbrokenNames e.names → ∀ {tail : List Char},
    Unbroken tail → Unbroken (e.chars tail)
  | .literal value, _, tail, htail => by
    simpa [chars] using ⟨value.unbroken_literal, htail⟩
  | .var name, h, tail, htail => by
    obtain ⟨hname, -⟩ := unbrokenNames_cons.mp h
    simpa [chars] using ⟨hname, htail⟩
  | .call function args, h, tail, htail => by
    obtain ⟨hfunction, hargs⟩ := unbrokenNames_cons.mp h
    have hclosed : Unbroken (')' :: tail) := by simpa using htail
    simpa [chars] using ⟨hfunction, unbroken_argChars hargs hclosed⟩
  | .invoke receiver method args, h, tail, htail => by
    obtain ⟨hreceiver, hmethod, hargs⟩ : UnbrokenNames receiver.names ∧
        Unbroken method.toList ∧ UnbrokenNames (argNames args) := by simpa [names] using h
    have hclosed : Unbroken (')' :: tail) := by simpa using htail
    exact unbroken_chars hreceiver (by simpa using ⟨hmethod, unbroken_argChars hargs hclosed⟩)
  | .create type, h, tail, htail => by
    obtain ⟨htype, -⟩ := unbrokenNames_cons.mp h
    simpa [chars] using ⟨htype, htail⟩
  | .lambda param body, h, tail, htail => by
    obtain ⟨hparam, hbody⟩ := unbrokenNames_cons.mp h
    simpa [chars] using ⟨hparam, unbroken_chars hbody htail⟩
  | .binary left op right, h, tail, htail => by
    obtain ⟨hleft, hop, hright⟩ : UnbrokenNames left.names ∧ Unbroken op.symbol.toList ∧
        UnbrokenNames right.names := by simpa [names] using h
    have hsecond :=
      unbroken_grouped (right.needsGroup (· ≤ op.strength)) (unbroken_chars hright) htail
    exact unbroken_grouped _ (unbroken_chars hleft) (by simpa using ⟨hop, hsecond⟩)
  | .group inner, h, tail, htail => by
    have hinner : UnbrokenNames inner.names := h
    exact unbroken_grouped true (unbroken_chars hinner) htail
  | .not inner, h, tail, htail => by
    have hinner : UnbrokenNames inner.names := h
    simpa [chars] using unbroken_grouped inner.isOpen (unbroken_chars hinner) htail

theorem unbroken_argChars : ∀ {args : List Expr}, UnbrokenNames (argNames args) →
    ∀ {tail : List Char}, Unbroken tail → Unbroken (argChars args tail)
  | [], _, tail, htail => htail
  | arg :: args, h, tail, htail => by
    obtain ⟨harg, hargs⟩ := unbrokenNames_append.mp h
    exact unbroken_chars harg (unbroken_moreArgChars hargs htail)

theorem unbroken_moreArgChars : ∀ {args : List Expr}, UnbrokenNames (argNames args) →
    ∀ {tail : List Char}, Unbroken tail → Unbroken (moreArgChars args tail)
  | [], _, tail, htail => htail
  | arg :: args, h, tail, htail => by
    obtain ⟨harg, hargs⟩ := unbrokenNames_append.mp h
    simpa [moreArgChars] using unbroken_chars harg (unbroken_moreArgChars hargs htail)

end

theorem unbroken_render {e : Expr} (h : UnbrokenNames e.names) : Unbroken e.render.toList := by
  rw [render, String.toList_ofList]
  exact unbroken_chars h unbroken_nil

end Expr

/-- The text of a statement on its own line, without the indentation. A comment has its text,
character by character, with a space for each line feed and each carriage return. -/
def Stmt.text : Stmt → String
  | .comment text =>
    "// " ++ String.ofList (text.toList.map fun c => if c = '\n' ∨ c = '\r' then ' ' else c)
  | .blank => ""
  | .declare name value => "var " ++ name ++ " = " ++ value.render ++ ";"
  | .run value => value.render ++ ";"
  | .andAssign name value => name ++ " &= " ++ value.render ++ ";"
  | .ifThen condition _ => "if (" ++ condition.render ++ ")"
  | .ret value => "return " ++ value.render ++ ";"

theorem Stmt.text_comment (text : String) : (comment text).text = "// " ++ oneLine text := by
  simp only [Stmt.text, oneLine, or_comm]

theorem unbroken_line {text : String} (h : Unbroken text.toList) (indent depth : ℕ) :
    Unbroken (line indent depth text).toList := by
  rw [line, String.toList_append, String.toList_ofList]
  exact unbroken_append.mpr ⟨unbroken_replicate _, h⟩

theorem Stmt.unbroken_text {stmt : Stmt} (h : UnbrokenNames stmt.names) :
    Unbroken stmt.text.toList := by
  cases stmt with
  | comment words => simpa [text_comment] using unbroken_oneLine words
  | blank => exact unbroken_nil
  | declare name value | andAssign name value =>
    obtain ⟨hname, hvalue⟩ := unbrokenNames_cons.mp h
    simpa [text] using ⟨hname, Expr.unbroken_render hvalue⟩
  | run value | ret value => simpa [text] using Expr.unbroken_render h
  | ifThen condition body =>
    obtain ⟨hcondition, -⟩ := unbrokenNames_append.mp h
    simpa [text] using Expr.unbroken_render hcondition

/-! ### Heights -/

mutual

/-- How many lines a statement takes. -/
def Stmt.height : Stmt → ℕ
  | .ifThen _ body => 3 + Stmt.blockHeight body
  | _ => 1

/-- How many lines several statements take. -/
def Stmt.blockHeight : List Stmt → ℕ
  | [] => 0
  | stmt :: rest => stmt.height + Stmt.blockHeight rest

end

theorem Stmt.blockHeight_append (before after : List Stmt) :
    Stmt.blockHeight (before ++ after) = Stmt.blockHeight before + Stmt.blockHeight after := by
  induction before with
  | nil => rw [List.nil_append, Stmt.blockHeight, Nat.zero_add]
  | cons stmt before ih =>
    rw [List.cons_append, Stmt.blockHeight, Stmt.blockHeight, ih, Nat.add_assoc]

mutual

theorem Stmt.length_lines (indent depth : ℕ) : ∀ stmt : Stmt,
    (stmt.lines indent depth).length = stmt.height
  | .ifThen _ body => by
    simp only [Stmt.lines, Stmt.height, List.length_cons, List.length_append, List.length_nil,
      Stmt.length_blockLines indent (depth + 1) body]
    omega
  | .comment _ | .blank | .declare .. | .run _ | .andAssign .. | .ret _ => by
    simp only [Stmt.lines, Stmt.height, List.length_cons, List.length_nil]

theorem Stmt.length_blockLines (indent depth : ℕ) : ∀ block : List Stmt,
    (Stmt.blockLines indent depth block).length = Stmt.blockHeight block
  | [] => rfl
  | stmt :: rest => by
    rw [Stmt.blockLines, List.length_append, Stmt.length_lines indent depth stmt,
      Stmt.length_blockLines indent depth rest, Stmt.blockHeight]

end

/-- The lines of a block that starts with a conditional. -/
theorem Stmt.blockLines_ifThen (indent depth : ℕ) (condition : Expr) (body rest : List Stmt) :
    Stmt.blockLines indent depth (.ifThen condition body :: rest) =
      line indent depth (Stmt.ifThen condition body).text :: line indent depth "\x7b" ::
        (Stmt.blockLines indent (depth + 1) body ++
          line indent depth "\x7d" :: Stmt.blockLines indent depth rest) := by
  simp [Stmt.blockLines, Stmt.lines, Stmt.text]

/-! ### Where a statement stands -/

/-- What stands on a line of a block: a statement, or a brace around the body of a conditional. -/
inductive Item where
  | statement (stmt : Stmt)
  | opening
  | closing

namespace Item

/-- The text of what stands on a line. -/
def text : Item → String
  | .statement stmt => stmt.text
  | .opening => "\x7b"
  | .closing => "\x7d"

/-- The line itself: an empty one for an empty statement, otherwise an indented text. -/
def line (indent depth : ℕ) : Item → String
  | .statement .blank => ""
  | item => Procedure.line indent depth item.text

theorem unbroken_line {item : Item} (h : Unbroken item.text.toList) (indent depth : ℕ) :
    Unbroken (item.line indent depth).toList := by
  unfold line
  split
  · exact unbroken_nil
  · exact Procedure.unbroken_line h indent depth

end Item

/-- `Stands block depth row item` says that on line `row` of a block stands `item`, nested in
`depth` conditionals. Lines are counted from zero. -/
inductive Stands : List Stmt → ℕ → ℕ → Item → Prop
  | first (stmt : Stmt) (rest : List Stmt) : Stands (stmt :: rest) 0 0 (.statement stmt)
  | opening (condition : Expr) (body rest : List Stmt) :
      Stands (.ifThen condition body :: rest) 0 1 .opening
  | inside (condition : Expr) {body : List Stmt} (rest : List Stmt) {depth row : ℕ} {item : Item}
      (h : Stands body depth row item) :
      Stands (.ifThen condition body :: rest) (depth + 1) (row + 2) item
  | closing (condition : Expr) (body rest : List Stmt) :
      Stands (.ifThen condition body :: rest) 0 (Stmt.blockHeight body + 2) .closing
  | later (stmt : Stmt) {rest : List Stmt} {depth row : ℕ} {item : Item}
      (h : Stands rest depth row item) : Stands (stmt :: rest) depth (stmt.height + row) item

namespace Stands

variable {block : List Stmt} {depth row : ℕ} {item : Item}

/-- **What stands on a line is written there**, indented by the depth of the block and its own. -/
theorem getElem?_blockLines (h : Stands block depth row item) (indent base : ℕ) :
    (Stmt.blockLines indent base block)[row]? = some (item.line indent (base + depth)) := by
  induction h generalizing base with
  | first stmt rest =>
    cases stmt with
    | comment words => simp [Stmt.blockLines, Stmt.lines, Item.line, Item.text, Stmt.text_comment]
    | _ => simp [Stmt.blockLines, Stmt.lines, Item.line, Item.text, Stmt.text]
  | opening condition body rest =>
    rw [Stmt.blockLines_ifThen, List.getElem?_cons_succ, List.getElem?_cons_zero]
    rfl
  | @inside condition body rest depth row item h ih =>
    have hitem := ih (base + 1)
    obtain ⟨hrow, -⟩ := List.getElem?_eq_some_iff.mp hitem
    rw [Stmt.blockLines_ifThen, List.getElem?_cons_succ, List.getElem?_cons_succ,
      List.getElem?_append_left hrow, hitem, Nat.add_right_comm, Nat.add_assoc]
  | closing condition body rest =>
    rw [Stmt.blockLines_ifThen, List.getElem?_cons_succ, List.getElem?_cons_succ,
      ← Stmt.length_blockLines indent (base + 1), List.getElem?_append_right le_rfl, Nat.sub_self]
    rfl
  | @later stmt rest depth row item h ih =>
    rw [Stmt.blockLines, List.getElem?_append_right (by rw [Stmt.length_lines]; omega),
      Stmt.length_lines, Nat.add_sub_cancel_left, ih]

/-- What stands in a block has no line breaks if the names of the block have none. -/
theorem unbroken_text (h : Stands block depth row item)
    (hnames : UnbrokenNames (Stmt.blockNames block)) : Unbroken item.text.toList := by
  induction h with
  | first stmt rest => exact Stmt.unbroken_text (unbrokenNames_append.mp hnames).1
  | opening | closing => decide
  | inside condition rest _ ih =>
    exact ih (unbrokenNames_append.mp (unbrokenNames_append.mp hnames).1).2
  | later stmt _ ih => exact ih (unbrokenNames_append.mp hnames).2

end Stands

mutual

/-- Something stands on every line of a block. -/
theorem exists_stands : ∀ {block : List Stmt} {row : ℕ}, row < Stmt.blockHeight block →
    ∃ depth item, Stands block depth row item
  | [], row, h => absurd h (Nat.not_lt_zero row)
  | stmt :: rest, row, h => by
    rcases Nat.lt_or_ge row stmt.height with hrow | hrow
    · exact exists_stands_first rest hrow
    · obtain ⟨more, rfl⟩ := Nat.exists_eq_add_of_le hrow
      rw [Stmt.blockHeight, Nat.add_lt_add_iff_left] at h
      obtain ⟨depth, item, hitem⟩ := exists_stands h
      exact ⟨depth, item, .later stmt hitem⟩

/-- Something stands on every line of the first statement of a block. -/
theorem exists_stands_first : ∀ {stmt : Stmt} {row : ℕ} (rest : List Stmt), row < stmt.height →
    ∃ depth item, Stands (stmt :: rest) depth row item
  | .ifThen condition body, row, rest, h => by
    match row, h with
    | 0, _ => exact ⟨_, _, .first _ rest⟩
    | 1, _ => exact ⟨_, _, .opening condition body rest⟩
    | row + 2, h =>
      rcases Nat.lt_or_ge row (Stmt.blockHeight body) with hrow | hrow
      · obtain ⟨depth, item, hitem⟩ := exists_stands hrow
        exact ⟨_, _, .inside condition rest hitem⟩
      · obtain rfl : row = Stmt.blockHeight body := by
          rw [Stmt.height] at h
          omega
        exact ⟨_, _, .closing condition body rest⟩
  | .comment _, row, rest, h | .blank, row, rest, h | .declare .., row, rest, h
  | .run _, row, rest, h | .andAssign .., row, rest, h | .ret _, row, rest, h => by
    obtain rfl : row = 0 := Nat.lt_one_iff.mp h
    exact ⟨_, _, .first _ rest⟩

end

/-- The lines of a block have no line breaks if its names have none. -/
theorem unbroken_blockLines {block : List Stmt} (h : UnbrokenNames (Stmt.blockNames block))
    (indent depth : ℕ) : ∀ l ∈ Stmt.blockLines indent depth block, Unbroken l.toList := by
  intro l hl
  obtain ⟨row, hrow⟩ := List.mem_iff_getElem?.mp hl
  obtain ⟨hlt, -⟩ := List.getElem?_eq_some_iff.mp hrow
  rw [Stmt.length_blockLines] at hlt
  obtain ⟨inner, item, hitem⟩ := exists_stands hlt
  rw [hitem.getElem?_blockLines] at hrow
  cases hrow
  exact Item.unbroken_line (hitem.unbroken_text h) indent _

/-- **The lines of a procedure have no line breaks** if its names have none. -/
theorem unbroken_lines {p : Procedure} (h : UnbrokenNames p.names) (indent : ℕ) :
    ∀ l ∈ p.lines indent, Unbroken l.toList := by
  obtain ⟨hname, hbody⟩ := unbrokenNames_cons.mp h
  rw [lines, List.forall_mem_cons, List.forall_mem_cons, List.forall_mem_append]
  refine ⟨by simpa using hname, by decide, unbroken_blockLines hbody indent 1, ?_⟩
  simp

/-! ### The text of lines -/

theorem toList_joinLines_cons (l : String) (lines : List String) :
    (joinLines (l :: lines)).toList = l.toList ++ '\n' :: (joinLines lines).toList := by
  rw [joinLines, List.map_cons, String.join_cons]
  simp [joinLines]

/-- The text of lines has a line break between them, and an empty line after the last. -/
theorem toList_joinLines (lines : List String) :
    (joinLines lines).toList = ['\n'].intercalate (lines.map String.toList ++ [[]]) := by
  induction lines with
  | nil => rfl
  | cons l lines ih =>
    rw [toList_joinLines_cons, ih]
    rcases lines with - | ⟨next, lines⟩
    · simp
    · simp [List.intercalate_cons_cons]

/-- **The text of lines falls apart into them** if they have no line breaks. -/
theorem splitOn_joinLines {lines : List String} (h : ∀ l ∈ lines, Unbroken l.toList) :
    (joinLines lines).toList.splitOn '\n' = lines.map String.toList ++ [[]] := by
  rw [toList_joinLines, List.splitOn_intercalate]
  · refine List.forall_mem_append.mpr ⟨List.forall_mem_map.mpr fun l hl => ?_, by simp⟩
    exact (h l hl).newline_not_mem
  · simp

theorem count_joinLines {lines : List String} (h : ∀ l ∈ lines, Unbroken l.toList) :
    (joinLines lines).toList.count '\n' = lines.length := by
  induction lines with
  | nil => rfl
  | cons l lines ih =>
    obtain ⟨hl, hlines⟩ := List.forall_mem_cons.mp h
    rw [toList_joinLines_cons, List.count_append, List.count_eq_zero.mpr hl.newline_not_mem,
      List.count_cons_self, ih hlines, Nat.zero_add, List.length_cons]

theorem return_not_mem_joinLines {lines : List String} (h : ∀ l ∈ lines, Unbroken l.toList) :
    '\r' ∉ (joinLines lines).toList := by
  induction lines with
  | nil => simp [joinLines]
  | cons l lines ih =>
    obtain ⟨hl, hlines⟩ := List.forall_mem_cons.mp h
    simpa [toList_joinLines_cons] using ⟨hl.return_not_mem, ih hlines⟩

theorem getLast?_joinLines {lines : List String} (h : lines ≠ []) :
    (joinLines lines).toList.getLast? = some '\n' := by
  obtain ⟨front, last, rfl⟩ := (List.eq_nil_or_concat lines).resolve_left h
  rw [List.concat_eq_append, joinLines_append, String.toList_append, toList_joinLines_cons]
  simp [joinLines]

/-! ### The layout of a procedure -/

/-- The first line, the braces and the lines of the body. -/
theorem length_lines (indent : ℕ) (p : Procedure) :
    (p.lines indent).length = 3 + Stmt.blockHeight p.body := by
  rw [lines, List.length_cons, List.length_cons, List.length_append, Stmt.length_blockLines,
    List.length_singleton]
  omega

theorem count_render {p : Procedure} (h : UnbrokenNames p.names) (indent : ℕ) :
    (p.render indent).toList.count '\n' = 3 + Stmt.blockHeight p.body :=
  (count_joinLines (unbroken_lines h indent)).trans (length_lines indent p)

/-- `LaidOut indent p rows` says that the rows are those of the procedure: its first line and the
braces around its body are not indented, something stands on every line between the braces, and what
stands there is written with `indent` spaces for each block around it. -/
structure LaidOut (indent : ℕ) (p : Procedure) (rows : List (List Char)) : Prop where
  header : rows[0]? = some ("public bool " ++ p.name ++ "()").toList
  opening : rows[1]? = some "\x7b".toList
  covered : ∀ row < Stmt.blockHeight p.body, ∃ depth item, Stands p.body depth row item
  indented : ∀ {depth row : ℕ} {item : Item}, Stands p.body depth row item →
    item ≠ .statement .blank →
    rows[row + 2]? = some (List.replicate ((depth + 1) * indent) ' ' ++ item.text.toList)
  empty : ∀ {depth row : ℕ}, Stands p.body depth row (.statement .blank) → rows[row + 2]? = some []
  closing : rows[Stmt.blockHeight p.body + 2]? = some "\x7d".toList

/-- **The text of a procedure falls apart into its lines** if its names have no line breaks. -/
theorem laidOut_render {p : Procedure} (h : UnbrokenNames p.names) (indent : ℕ) :
    LaidOut indent p ((p.render indent).toList.splitOn '\n') := by
  have hrow : ∀ {row : ℕ} {l : String}, (p.lines indent)[row]? = some l →
      ((p.render indent).toList.splitOn '\n')[row]? = some l.toList := by
    intro row l hl
    obtain ⟨hlt, -⟩ := List.getElem?_eq_some_iff.mp hl
    have hsplit := splitOn_joinLines (unbroken_lines h indent)
    rw [render, ← joinLines, hsplit, List.getElem?_append_left (by simpa using hlt),
      List.getElem?_map, hl, Option.map_some]
  have hitem : ∀ {depth row : ℕ} {item : Item}, Stands p.body depth row item →
      ((p.render indent).toList.splitOn '\n')[row + 2]? =
        some (item.line indent (depth + 1)).toList := by
    intro depth row item hstands
    have hline := hstands.getElem?_blockLines indent 1
    obtain ⟨hlt, -⟩ := List.getElem?_eq_some_iff.mp hline
    refine hrow ?_
    rw [lines, List.getElem?_cons_succ, List.getElem?_cons_succ, List.getElem?_append_left hlt,
      hline, Nat.add_comm 1]
  refine ⟨hrow rfl, hrow rfl, fun row => exists_stands, ?_, fun hstands => hitem hstands, ?_⟩
  · intro depth row item hstands hne
    rw [hitem hstands, Item.line, Procedure.line, String.toList_append, String.toList_ofList]
    exact hne
  · refine hrow ?_
    rw [lines, List.getElem?_cons_succ, List.getElem?_cons_succ,
      ← Stmt.length_blockLines indent 1, List.getElem?_concat_length]

end Procedure

end RegisterRules
