import RegisterRules.Procedure.Access
import RegisterRules.Proofs.WholeNumber
import RegisterRules.Table

/-!
# Execution of generated code

A generated procedure runs on a host. The host answers the calls that read tables from a book, and
decides what the ordering comparisons say; equality is equality of values. A run either ends with an
outcome or stops at a fault. There is a fault of its own for reading a variable that is not declared
and one for declaring a variable that is, so a run that ends without a fault does neither.

Expressions have no effect. The one effect of a statement, apart from declarations and `&=`, is that
`Add` puts a text at the end of a list of texts.

## Main definitions

* `Procedure.Datum`, `Procedure.Fault`: what expressions give, and what can go wrong.
* `Procedure.Host`: a book, and the ordering comparisons.
* `Procedure.Host.eval`: the value of an expression.
* `Procedure.Host.exec`, `Procedure.Host.execAll`: the effect of statements.

## Main results

* `Procedure.column?_number`, `Procedure.part?_number`: numbers of columns and parts read back.
* `Procedure.Host.execAll_append`: statements run one after the other.
-/

namespace RegisterRules

namespace Procedure

/-- What an expression gives and a variable holds. -/
inductive Datum where
  | value (value : Value)
  | row (row : Row)
  | rows (rows : List Row)
  | values (values : List Value)
  /-- A set of values, by its membership test. -/
  | set (contains : Value → Bool)
  | texts (texts : List String)

/-- What stops a run. -/
inductive Fault where
  /-- A variable is read or assigned that is not declared. -/
  | undeclared (name : String)
  /-- A variable is declared that is already there. -/
  | redeclared (name : String)
  /-- There is no such function, method, type or operator for what it is applied to. -/
  | unknown (name : String)
  /-- Something else is expected here. -/
  | mistyped
deriving DecidableEq

/-- The variables that are declared, the latest first. -/
abbrev Scope := List (String × Datum)

/-- An argument of a call: a datum, or a function of one parameter. -/
inductive Argument where
  | datum (datum : Datum)
  | function (apply : Datum → Except Fault Datum)

namespace Datum

/-- The truth value that a datum is. -/
def toBool : Datum → Except Fault Bool
  | .value (.bool b) => .ok b
  | _ => .error .mistyped

/-- The value that a datum is. -/
def toValue : Datum → Except Fault Value
  | .value v => .ok v
  | _ => .error .mistyped

/-- The natural number that a datum is. -/
def nat? : Datum → Option ℕ
  | .value (.number x) => x.toNat?
  | _ => none

/-- The number of a column that a datum is. -/
def column? (d : Datum) : Option UInt32 :=
  d.nat?.bind fun n => if n < UInt32.size then some (UInt32.ofNat n) else none

/-- The table part that a datum is. -/
def part? (d : Datum) : Option UInt8 :=
  d.nat?.bind fun n => if n < UInt8.size then some (UInt8.ofNat n) else none

end Datum

@[simp] theorem ok_bind {α β : Type} (a : α) (f : α → Except Fault β) :
    (Except.ok a >>= f) = f a :=
  rfl

@[simp] theorem map_ok {α β : Type} (f : α → β) (a : α) :
    f <$> (Except.ok a : Except Fault α) = .ok (f a) :=
  rfl

/-! ### Methods -/

/-- A function as a test. -/
def test (f : Datum → Except Fault Datum) (d : Datum) : Except Fault Bool :=
  f d >>= Datum.toBool

/-- The result of a method that has no effect. -/
def invoke : Datum → String → List Argument → Except Fault Datum
  | .row row, "GetValue", [.datum d] =>
    match d.column? with
    | some column => .ok (.value (row.get column))
    | none => .error .mistyped
  | .rows rows, "Where", [.function f] => .rows <$> rows.filterM fun row => test f (.row row)
  | .rows rows, "ToList", [] => .ok (.rows rows)
  | .rows rows, "Select", [.function f] =>
    .values <$> rows.mapM fun row => f (.row row) >>= Datum.toValue
  | .rows rows, "All", [.function f] =>
    (fun b => .value (.bool b)) <$> rows.allM fun row => test f (.row row)
  | .values values, "All", [.function f] =>
    (fun b => .value (.bool b)) <$> values.allM fun value => test f (.value value)
  | .values values, "ToHashSet", [] => .ok (.set fun value => values.any (·.equal value))
  | .set contains, "Contains", [.datum (.value value)] => .ok (.value (.bool (contains value)))
  | _, method, _ => .error (.unknown method)

section Methods

variable (row : Row) (rows : List Row) (values : List Value) (d : Datum)
  (f : Datum → Except Fault Datum)

theorem invoke_getValue : invoke (.row row) "GetValue" [.datum d] =
    match d.column? with
    | some column => .ok (.value (row.get column))
    | none => .error .mistyped :=
  rfl

theorem invoke_where : invoke (.rows rows) "Where" [.function f] =
    .rows <$> rows.filterM fun row => test f (.row row) :=
  rfl

theorem invoke_select : invoke (.rows rows) "Select" [.function f] =
    .values <$> rows.mapM fun row => f (.row row) >>= Datum.toValue :=
  rfl

theorem invoke_all_rows : invoke (.rows rows) "All" [.function f] =
    (fun b => .value (.bool b)) <$> rows.allM fun row => test f (.row row) :=
  rfl

theorem invoke_all_values : invoke (.values values) "All" [.function f] =
    (fun b => .value (.bool b)) <$> values.allM fun value => test f (.value value) :=
  rfl

end Methods

/-- A new object. -/
def create : String → Except Fault Datum
  | "List<string>" => .ok (.texts [])
  | type => .error (.unknown type)

/-! ### Expressions -/

/-- What a procedure runs on: the tables, and what the ordering comparisons say. -/
structure Host where
  book : Book
  gt : Value → Value → Bool
  ge : Value → Value → Bool
  lt : Value → Value → Bool
  le : Value → Value → Bool

namespace Host

/-- The answer to a call that reads tables. -/
def call (host : Host) : String → List Argument → Except Fault Datum
  | "GetRows", [.datum (.value (.text code)), .datum part] =>
    match part.part? with
    | some part => .ok (.rows (host.book.rows ⟨code, part⟩))
    | none => .error .mistyped
  | "GetCellValue", [.datum (.value (.text code)), .datum part, .datum column] =>
    match part.part?, column.column? with
    | some part, some column => .ok (.value (host.book.cellValue ⟨code, part⟩ column))
    | _, _ => .error .mistyped
  | "GetColumn", [.datum (.value (.text code)), .datum part, .datum column] =>
    match part.part?, column.column? with
    | some part, some column => .ok (.values (host.book.column ⟨code, part⟩ column))
    | _, _ => .error .mistyped
  | function, _ => .error (.unknown function)

theorem call_getRows {part : Datum} {p : UInt8} (h : part.part? = some p) (host : Host)
    (code : String) :
    host.call "GetRows" [.datum (.value (.text code)), .datum part] =
      .ok (.rows (host.book.rows ⟨code, p⟩)) := by
  show (match part.part? with
    | some part => _
    | none => _) = _
  rw [h]

theorem call_getCellValue {part column : Datum} {p : UInt8} {c : UInt32}
    (hpart : part.part? = some p) (hcolumn : column.column? = some c) (host : Host)
    (code : String) :
    host.call "GetCellValue" [.datum (.value (.text code)), .datum part, .datum column] =
      .ok (.value (host.book.cellValue ⟨code, p⟩ c)) := by
  show (match part.part?, column.column? with
    | some part, some column => _
    | _, _ => _) = _
  rw [hpart, hcolumn]

theorem call_getColumn {part column : Datum} {p : UInt8} {c : UInt32} (hpart : part.part? = some p)
    (hcolumn : column.column? = some c) (host : Host) (code : String) :
    host.call "GetColumn" [.datum (.value (.text code)), .datum part, .datum column] =
      .ok (.values (host.book.column ⟨code, p⟩ c)) := by
  show (match part.part?, column.column? with
    | some part, some column => _
    | _, _ => _) = _
  rw [hpart, hcolumn]

/-- What a comparison says of two values. -/
def compares (host : Host) : Operator → Value → Value → Bool
  | .eq, v, w => v.equal w
  | .ne, v, w => !v.equal w
  | .gt, v, w => host.gt v w
  | .ge, v, w => host.ge v w
  | .lt, v, w => host.lt v w
  | .le, v, w => host.le v w
  | _, _, _ => false

/-- The result of an operator on the values of both operands. -/
def combine (host : Host) : Infix → Datum → Datum → Except Fault Datum
  | .and, .value (.bool a), .value (.bool b) => .ok (.value (.bool (a && b)))
  | .or, .value (.bool a), .value (.bool b) => .ok (.value (.bool (a || b)))
  | .eq, .value v, .value w => .ok (.value (.bool (v.equal w)))
  | .ne, .value v, .value w => .ok (.value (.bool (!v.equal w)))
  | .gt, .value v, .value w => .ok (.value (.bool (host.gt v w)))
  | .ge, .value v, .value w => .ok (.value (.bool (host.ge v w)))
  | .lt, .value v, .value w => .ok (.value (.bool (host.lt v w)))
  | .le, .value v, .value w => .ok (.value (.bool (host.le v w)))
  | op, _, _ => .error (.unknown op.symbol)

end Host

/-- The result of an operator that the first operand decides, so that the second is not read. -/
def settled : Infix → Datum → Option Datum
  | .and, .value (.bool false) => some (.value (.bool false))
  | .or, .value (.bool true) => some (.value (.bool true))
  | _, _ => none

namespace Host

mutual

/-- The value of an expression. -/
def eval (host : Host) : Expr → Scope → Except Fault Datum
  | .literal value, _ => .ok (.value value)
  | .var name, scope =>
    match scope.lookup name with
    | some d => .ok d
    | none => .error (.undeclared name)
  | .call function args, scope => evalArgs host args scope >>= host.call function
  | .invoke receiver method args, scope => do
    let receiver ← eval host receiver scope
    let args ← evalArgs host args scope
    invoke receiver method args
  | .create type, _ => create type
  | .lambda .., _ => .error .mistyped
  | .binary left op right, scope => do
    let l ← eval host left scope
    match settled op l with
    | some result => .ok result
    | none => eval host right scope >>= host.combine op l
  | .group inner, scope => eval host inner scope
  | .not inner, scope => do
    let b ← eval host inner scope >>= Datum.toBool
    .ok (.value (.bool !b))

/-- The arguments of a call. The parameter of a function must not be the name of a variable. -/
def evalArgs (host : Host) : List Expr → Scope → Except Fault (List Argument)
  | [], _ => .ok []
  | .lambda param body :: rest, scope =>
    match scope.lookup param with
    | some _ => .error (.redeclared param)
    | none => do
      let args ← evalArgs host rest scope
      .ok (.function (fun d => eval host body ((param, d) :: scope)) :: args)
  | arg :: rest, scope => do
    let d ← eval host arg scope
    let args ← evalArgs host rest scope
    .ok (.datum d :: args)

end

end Host

/-! ### Statements -/

/-- The scope with another datum in a variable. -/
def assign (name : String) (d : Datum) (scope : Scope) : Scope :=
  scope.map fun (other, old) => if other = name then (other, d) else (other, old)

/-- Where a statement leads: on to the next with other variables, or out with a result. -/
inductive Outcome where
  | goesOn (scope : Scope)
  | returned (result : Datum) (scope : Scope)

/-- What a block leaves behind: its own variables are gone. -/
def Outcome.leave (outer : Scope) : Outcome → Outcome
  | .goesOn inner => .goesOn (inner.drop (inner.length - outer.length))
  | .returned result inner => .returned result inner

namespace Host

/-- The effect of an expression that stands as a statement. -/
def effect (host : Host) : Expr → Scope → Except Fault Scope
  | .invoke (.var name) "Add" [arg], scope => do
    match ← host.eval (.var name) scope, ← host.eval arg scope with
    | .texts texts, .value (.text s) => .ok (assign name (.texts (texts ++ [s])) scope)
    | _, _ => .error .mistyped
  | _, _ => .error .mistyped

mutual

/-- The effect of a statement. -/
def exec (host : Host) : Stmt → Scope → Except Fault Outcome
  | .comment _, scope | .blank, scope => .ok (.goesOn scope)
  | .declare name value, scope =>
    match scope.lookup name with
    | some _ => .error (.redeclared name)
    | none => (fun d => .goesOn ((name, d) :: scope)) <$> host.eval value scope
  | .run value, scope => .goesOn <$> host.effect value scope
  | .andAssign name value, scope => do
    let old ← host.eval (.var name) scope >>= Datum.toBool
    let new ← host.eval value scope >>= Datum.toBool
    .ok (.goesOn (assign name (.value (.bool (old && new))) scope))
  | .ifThen condition body, scope => do
    let b ← host.eval condition scope >>= Datum.toBool
    if b then Outcome.leave scope <$> execAll host body scope else .ok (.goesOn scope)
  | .ret value, scope => (.returned · scope) <$> host.eval value scope

/-- The effect of several statements, up to one that returns. -/
def execAll (host : Host) : List Stmt → Scope → Except Fault Outcome
  | [], scope => .ok (.goesOn scope)
  | stmt :: rest, scope => do
    match ← exec host stmt scope with
    | .goesOn scope => execAll host rest scope
    | .returned result scope => .ok (.returned result scope)

end

end Host

/-! ### Variables -/

theorem lookup_assign_self {name : String} {scope : Scope} {old : Datum}
    (h : scope.lookup name = some old) (d : Datum) :
    (assign name d scope).lookup name = some d := by
  induction scope with
  | nil => cases h
  | cons entry rest ih =>
    obtain ⟨other, v⟩ := entry
    by_cases heq : other = name
    · subst heq
      simp [assign]
    · rw [List.lookup_cons, beq_eq_false_iff_ne.mpr (Ne.symm heq)] at h
      have hrest := ih h
      rw [assign] at hrest
      simp [assign, heq, List.lookup_cons, beq_eq_false_iff_ne.mpr (Ne.symm heq), hrest]

theorem lookup_assign_of_ne {name other : String} (h : other ≠ name) (d : Datum) (scope : Scope) :
    (assign name d scope).lookup other = scope.lookup other := by
  induction scope with
  | nil => rfl
  | cons entry rest ih =>
    obtain ⟨key, v⟩ := entry
    rw [assign] at ih
    by_cases heq : key = name
    · subst heq
      simp [assign, List.lookup_cons, beq_eq_false_iff_ne.mpr h, ih]
    · simp [assign, heq, List.lookup_cons, ih]

@[simp] theorem length_assign (name : String) (d : Datum) (scope : Scope) :
    (assign name d scope).length = scope.length := by
  simp [assign]

/-- A block that declares nothing leaves the variables as they are. -/
theorem Outcome.leave_of_length_eq {outer inner : Scope} (h : inner.length = outer.length) :
    (Outcome.goesOn inner).leave outer = .goesOn inner := by
  rw [Outcome.leave, h, Nat.sub_self, List.drop_zero]

/-! ### Numbers of columns and parts -/

theorem nat?_number {n : ℕ} (h : n < 2 ^ 53) :
    (Datum.value (.number ((Binary64.ofNat? n).getD .zero))).nat? = some n := by
  obtain ⟨x, hx, hnat⟩ := Binary64.exists_ofNat?_eq h
  rw [hx]
  exact hnat

/-- The number of a column reads back. -/
theorem column?_number (column : UInt32) :
    (Datum.value (.number ((Binary64.ofNat? column.toNat).getD .zero))).column? = some column := by
  have hlt : column.toNat < UInt32.size := column.toNat_lt
  rw [Datum.column?, nat?_number (hlt.trans (by decide)), Option.bind_some, if_pos hlt,
    UInt32.ofNat_toNat]

/-- The number of a table part reads back. -/
theorem part?_number (part : UInt8) :
    (Datum.value (.number ((Binary64.ofNat? part.toNat).getD .zero))).part? = some part := by
  have hlt : part.toNat < UInt8.size := part.toNat_lt
  rw [Datum.part?, nat?_number (hlt.trans (by decide)), Option.bind_some, if_pos hlt,
    UInt8.ofNat_toNat]

namespace Host

variable (host : Host) (scope : Scope)

/-! ### Access to tables -/

theorem eval_variable (name : String) :
    host.eval (.var name) scope =
      match scope.lookup name with
      | some d => .ok d
      | none => .error (.undeclared name) :=
  rfl

theorem eval_call (function : String) (args : List Expr) :
    host.eval (.call function args) scope = host.evalArgs args scope >>= host.call function :=
  rfl

theorem eval_invoke (receiver : Expr) (method : String) (args : List Expr) :
    host.eval (.invoke receiver method args) scope = host.eval receiver scope >>= fun d =>
      host.evalArgs args scope >>= fun args => invoke d method args :=
  rfl

/-- The address of a column, as arguments. -/
theorem evalArgs_address (c : Cell) :
    host.evalArgs (address c) scope = .ok
      [.datum (.value (.text c.code)),
        .datum (.value (.number ((Binary64.ofNat? c.part.toNat).getD .zero))),
        .datum (.value (.number ((Binary64.ofNat? c.column.toNat).getD .zero)))] :=
  rfl

/-- A call that reads the first row of a table. -/
theorem eval_cellValue (c : Cell) :
    host.eval (cellValue c) scope = .ok (.value (host.book.cellValue c.table c.column)) := by
  rw [cellValue, eval_call, evalArgs_address, ok_bind]
  exact call_getCellValue (part?_number c.part) (column?_number c.column) host c.code

/-- A call that reads a column. -/
theorem eval_columnValues (c : Cell) :
    host.eval (columnValues c) scope = .ok (.values (host.book.column c.table c.column)) := by
  rw [columnValues, eval_call, evalArgs_address, ok_bind]
  exact call_getColumn (part?_number c.part) (column?_number c.column) host c.code

/-- A call that reads the rows of a table. -/
theorem eval_tableRows (id : TableId) :
    host.eval (tableRows id) scope = .ok (.rows (host.book.rows id)) :=
  call_getRows (part?_number id.part) host id.code

/-- A method that reads a column of a row. -/
theorem eval_getValue {name : String} {row : Row} (h : scope.lookup name = some (.row row))
    (column : UInt32) :
    host.eval (.invoke (.var name) "GetValue" [number column.toNat]) scope =
      .ok (.value (row.get column)) := by
  rw [eval_invoke, eval_variable, h]
  show invoke (.row row) "GetValue" [.datum (.value (.number _))] = _
  rw [invoke_getValue, column?_number]

/-! ### Methods that take a function -/

section Functions

variable {host scope} {receiver body : Expr} {name : String}

/-- An argument that is a function. -/
theorem evalArgs_lambda (h : scope.lookup name = none) :
    host.evalArgs [.lambda name body] scope =
      .ok [.function fun d => host.eval body ((name, d) :: scope)] := by
  have heq : host.evalArgs [.lambda name body] scope =
      match scope.lookup name with
      | some _ => .error (.redeclared name)
      | none => .ok [.function fun d => host.eval body ((name, d) :: scope)] := rfl
  rw [heq, h]

/-- Where a function answers with truth values, it is a test. -/
theorem test_eq {α : Type} {f : Datum → Except Fault Datum} {item : α → Datum} {p : α → Bool}
    (h : ∀ a, f (item a) = .ok (.value (.bool (p a)))) :
    (fun a => test f (item a)) = fun a => pure (p a) := by
  funext a
  rw [test, h]
  rfl

theorem filterM_pure {α : Type} (p : α → Bool) (l : List α) :
    l.filterM (fun a => (pure (p a) : Except Fault Bool)) = pure (l.filter p) := by
  have haux : ∀ acc, l.filterAuxM (fun a => (pure (p a) : Except Fault Bool)) acc =
      pure ((l.filter p).reverse ++ acc) := by
    induction l with
    | nil => exact fun acc => rfl
    | cons a rest ih =>
      intro acc
      rw [List.filterAuxM, pure_bind, ih]
      cases h : p a <;> simp [h]
  rw [List.filterM, haux, pure_bind, List.append_nil, List.reverse_reverse]

/-- Selection: the rows of which a test says yes. -/
theorem eval_where {rows : List Row} {p : Row → Bool}
    (hreceiver : host.eval receiver scope = .ok (.rows rows)) (hname : scope.lookup name = none)
    (hbody : ∀ row, host.eval body ((name, .row row) :: scope) = .ok (.value (.bool (p row)))) :
    host.eval (.invoke (.invoke receiver "Where" [.lambda name body]) "ToList" []) scope =
      .ok (.rows (rows.filter p)) := by
  have hwhere : host.eval (.invoke receiver "Where" [.lambda name body]) scope =
      .ok (.rows (rows.filter p)) := by
    rw [eval_invoke, hreceiver, ok_bind, evalArgs_lambda hname, ok_bind, invoke_where,
      test_eq hbody, filterM_pure]
    rfl
  rw [eval_invoke, hwhere]
  rfl

/-- A test on all rows. -/
theorem eval_all_rows {rows : List Row} {p : Row → Bool}
    (hreceiver : host.eval receiver scope = .ok (.rows rows)) (hname : scope.lookup name = none)
    (hbody : ∀ row, host.eval body ((name, .row row) :: scope) = .ok (.value (.bool (p row)))) :
    host.eval (.invoke receiver "All" [.lambda name body]) scope =
      .ok (.value (.bool (rows.all p))) := by
  rw [eval_invoke, hreceiver, ok_bind, evalArgs_lambda hname, ok_bind, invoke_all_rows,
    test_eq hbody, List.allM_pure]
  rfl

/-- A test on all values. -/
theorem eval_all_values {values : List Value} {p : Value → Bool}
    (hreceiver : host.eval receiver scope = .ok (.values values))
    (hname : scope.lookup name = none)
    (hbody : ∀ value, host.eval body ((name, .value value) :: scope) =
      .ok (.value (.bool (p value)))) :
    host.eval (.invoke receiver "All" [.lambda name body]) scope =
      .ok (.value (.bool (values.all p))) := by
  rw [eval_invoke, hreceiver, ok_bind, evalArgs_lambda hname, ok_bind, invoke_all_values,
    test_eq hbody, List.allM_pure]
  rfl

/-- The set of what a function gives for the rows. -/
theorem eval_select {rows : List Row} {f : Row → Value}
    (hreceiver : host.eval receiver scope = .ok (.rows rows)) (hname : scope.lookup name = none)
    (hbody : ∀ row, host.eval body ((name, .row row) :: scope) = .ok (.value (f row))) :
    host.eval (.invoke (.invoke receiver "Select" [.lambda name body]) "ToHashSet" []) scope =
      .ok (.set fun value => (rows.map f).any (·.equal value)) := by
  have hvalue : ∀ row, host.eval body ((name, .row row) :: scope) >>= Datum.toValue =
      pure (f row) := by
    intro row
    rw [hbody]
    rfl
  have hselect : host.eval (.invoke receiver "Select" [.lambda name body]) scope =
      .ok (.values (rows.map f)) := by
    rw [eval_invoke, hreceiver, ok_bind, evalArgs_lambda hname, ok_bind, invoke_select]
    simp only [hvalue, List.mapM_pure]
    rfl
  rw [eval_invoke, hselect]
  rfl

end Functions

/-! ### Statements -/

section Statements

variable {host scope} {scope' : Scope} {stmt : Stmt} {stmts rest : List Stmt} {name : String}
  {value : Expr} {d : Datum}

theorem exec_declare (hname : scope.lookup name = none) (h : host.eval value scope = .ok d) :
    host.exec (.declare name value) scope = .ok (.goesOn ((name, d) :: scope)) := by
  have heq : host.exec (.declare name value) scope =
      match scope.lookup name with
      | some _ => .error (.redeclared name)
      | none => (fun d => .goesOn ((name, d) :: scope)) <$> host.eval value scope := rfl
  rw [heq, hname, h]
  rfl

theorem execAll_cons (h : host.exec stmt scope = .ok (.goesOn scope')) :
    host.execAll (stmt :: rest) scope = host.execAll rest scope' := by
  rw [execAll, h, ok_bind]

/-- Statements run one after the other. -/
theorem execAll_append (h : host.execAll stmts scope = .ok (.goesOn scope')) :
    host.execAll (stmts ++ rest) scope = host.execAll rest scope' := by
  induction stmts generalizing scope with
  | nil =>
    rw [execAll] at h
    cases h
    rfl
  | cons stmt more ih =>
    rw [execAll] at h
    rw [List.cons_append, execAll]
    cases hstmt : host.exec stmt scope with
    | error fault =>
      rw [hstmt] at h
      cases h
    | ok outcome =>
      rw [hstmt, ok_bind] at h
      rw [ok_bind]
      cases outcome with
      | goesOn next => exact ih h
      | returned result last => cases h

end Statements

end Host

end Procedure

end RegisterRules
