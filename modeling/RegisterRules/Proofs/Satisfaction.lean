import RegisterRules.Proofs.Execution
import RegisterRules.Proofs.Flattening

/-!
# What the procedure of a rule decides

A rule says something of tables without any procedure: which rows of its primary table a branch
speaks of, and what has to be true of them. This module states that, and proves that the procedure
of the rule decides it on every host. In particular the run ends without a fault, so no variable is
read before it is declared and none is declared twice.

The run is followed branch by branch. Between the branches the procedure is in a known position:
the violations so far are in one variable, whether there were none is in another, and no names are
taken but those in a list (`Reports`). A branch takes three names of its own, goes from one such
position to the next, and adds its violation if there is one (`execAll_branch`).

## Main definitions

* `Rule.seen`: a column as seen from a row of the primary table.
* `Rule.passes`: whether the conditions hold at a row.
* `AssignedValue.MetOn`: whether what a branch assigns is so on its rows.
* `Rule.branches`: the branches of a rule, each with the rows that it speaks of.
* `Rule.AllMet`, `Rule.violations`: whether all branches are met, and the reports on those not met.
* `Rule.Reports`: the variables of a procedure between two branches.

## Main results

* `Rule.eval_rowTest`: the test on a row says whether the conditions hold there.
* `Rule.execAll_branch`: one branch decides whether its assignment is met, and reports if not.
* `Rule.execAll_frame_statements`: the whole procedure decides whether the rule is met.
-/

namespace RegisterRules

open Procedure

namespace Rule

/-! ### What a rule says of tables -/

/-- A column as seen from a row of the primary table: the column of that row, or the column of the
first row of another table. -/
def seen (book : Book) (primary : TableId) (row : Row) (c : Cell) : Value :=
  if c.code = primary.code ∧ c.part = primary.part then row.get c.column
  else book.cellValue ⟨c.code, c.part⟩ c.column

/-- The right side of a comparison as seen from a row. -/
def operandSeen (book : Book) (primary : TableId) (row : Row) : Operand → Value
  | .literal value => value
  | .cell c => seen book primary row c

/-- Whether a condition holds at a row. -/
def holdsAt (host : Host) (primary : TableId) (row : Row) (c : Condition) : Bool :=
  host.compares c.operator (seen host.book primary row c.cell)
    (operandSeen host.book primary row c.operand)

/-- Whether the conditions hold at a row, joined from left to right. Without conditions they do. -/
def passes (host : Host) (primary : TableId) (row : Row) : List Condition → Bool
  | [] => true
  | first :: rest =>
    rest.foldl (fun x c => c.connective.holds x (holdsAt host primary row c))
      (holdsAt host primary row first)

end Rule

/-- Whether what is assigned to a column is so on some rows of the primary table. A literal has to
be in the column at each of them. Another column has to hold, at one of them or another, every value
of the column that it is assigned to. -/
def AssignedValue.MetOn (book : Book) (primary : TableId) (rows : List Row) (target : Cell) :
    AssignedValue → Prop
  | .literal value => ∀ row ∈ rows, (Rule.seen book primary row target).equal value = true
  | .cell source => ∀ value ∈ book.column ⟨target.code, target.part⟩ target.column,
      ∃ row ∈ rows, (Rule.seen book primary row source).equal value = true
  | .unresolved _ => False

instance (book : Book) (primary : TableId) (rows : List Row) (target : Cell) :
    (value : AssignedValue) → Decidable (value.MetOn book primary rows target)
  | .literal _ => inferInstanceAs (Decidable (∀ row ∈ rows, _ = true))
  | .cell _ => inferInstanceAs (Decidable (∀ value ∈ book.column _ _, ∃ row ∈ rows, _ = true))
  | .unresolved _ => inferInstanceAs (Decidable False)

namespace Rule

/-- The rows of the primary table at which the conditions hold. -/
def selected (host : Host) (primary : TableId) (r : Rule) : List Row :=
  (host.book.rows primary).filter fun row => passes host primary row r.conditions

/-- The other rows of the primary table. -/
def remaining (host : Host) (primary : TableId) (r : Rule) : List Row :=
  (host.book.rows primary).filter fun row => !passes host primary row r.conditions

/-- The branches of a rule: what each assigns, and the rows that it speaks of. -/
def branches (host : Host) (primary : TableId) (r : Rule) : List (Assignment × List Row) :=
  (r.consequent, r.selected host primary) ::
    (r.alternative.map fun a => (a, r.remaining host primary)).toList

/-- Whether every branch is met on its rows. -/
def AllMet (book : Book) (primary : TableId) (branches : List (Assignment × List Row)) : Prop :=
  ∀ b ∈ branches, b.1.value.MetOn book primary b.2 b.1.target

instance (book : Book) (primary : TableId) (branches : List (Assignment × List Row)) :
    Decidable (AllMet book primary branches) :=
  inferInstanceAs (Decidable (∀ b ∈ branches, b.1.value.MetOn book primary b.2 b.1.target))

/-- The reports on the branches that are not met. -/
def violations (book : Book) (primary : TableId) (branches : List (Assignment × List Row)) :
    List String :=
  (branches.filter fun b => ¬b.1.value.MetOn book primary b.2 b.1.target).map fun b =>
    "Rule violated: " ++ b.1.display

/-! ### Tests -/

variable {host : Host} {primary : TableId} {scope : Scope}

/-- A column is read as it is seen from the row. -/
theorem eval_columnAt {row : Row} (hrow : scope.lookup rowName = some (.row row)) (c : Cell) :
    host.eval (columnAt primary c) scope = .ok (.value (seen host.book primary row c)) := by
  simp only [columnAt, seen, Cell.table_eq_iff]
  split
  · exact host.eval_getValue scope hrow c.column
  · exact host.eval_cellValue scope c

/-- A comparison says what the host says. -/
theorem eval_comparison {left right : Expr} (op : Operator) (hop : op.isComparison = true)
    {v w : Value} (hleft : host.eval left scope = .ok (.value v))
    (hright : host.eval right scope = .ok (.value w)) :
    host.eval (.binary left (infixOf op) right) scope =
      .ok (.value (.bool (host.compares op v w))) := by
  rw [Host.eval, hleft, ok_bind, hright, ok_bind]
  cases op <;> cases hop <;> rfl

theorem eval_conditionTest {row : Row} (hrow : scope.lookup rowName = some (.row row))
    {c : Condition} (hc : c.operator.isComparison = true) :
    host.eval (conditionTest primary c) scope =
      .ok (.value (.bool (holdsAt host primary row c))) := by
  obtain ⟨cell, op, operand, k⟩ := c
  rw [conditionTest, Host.eval]
  refine eval_comparison op hc (eval_columnAt hrow cell) ?_
  cases operand with
  | literal value => rfl
  | cell right => exact eval_columnAt hrow right

/-- Joining is evaluated as the connective says, even if the second operand is not read. -/
theorem eval_join {left right : Expr} {x y : Bool} (k : Connective)
    (hleft : host.eval left scope = .ok (.value (.bool x)))
    (hright : host.eval right scope = .ok (.value (.bool y))) :
    host.eval (.binary left (joinOf k) right) scope = .ok (.value (.bool (k.holds x y))) := by
  rw [Host.eval, hleft, ok_bind, hright, ok_bind]
  cases k <;> cases x <;> rfl

theorem eval_joined {row : Row} (hrow : scope.lookup rowName = some (.row row))
    {conditions : List Condition} (h : ∀ c ∈ conditions, c.operator.isComparison = true)
    {test : Expr} {x : Bool} (htest : host.eval test scope = .ok (.value (.bool x))) :
    host.eval (joined primary test conditions) scope =
      .ok (.value (.bool (conditions.foldl
        (fun x c => c.connective.holds x (holdsAt host primary row c)) x))) := by
  induction conditions generalizing test x with
  | nil => exact htest
  | cons c rest ih =>
    have hc : c.operator.isComparison = true := h c (List.mem_cons_self ..)
    exact ih (fun d hd => h d (List.mem_cons_of_mem c hd))
      (eval_join c.connective htest (eval_conditionTest hrow hc))

/-- The test on a row says whether the conditions hold there. -/
theorem eval_rowTest {row : Row} (hrow : scope.lookup rowName = some (.row row))
    {conditions : List Condition} (h : ∀ c ∈ conditions, c.operator.isComparison = true) :
    host.eval (rowTest primary conditions) scope =
      .ok (.value (.bool (passes host primary row conditions))) := by
  cases conditions with
  | nil => rfl
  | cons first rest =>
    exact eval_joined hrow (fun c hc => h c (List.mem_cons_of_mem first hc))
      (eval_conditionTest hrow (h first (List.mem_cons_self ..)))

theorem eval_not {e : Expr} {b : Bool} (h : host.eval e scope = .ok (.value (.bool b))) :
    host.eval (.not e) scope = .ok (.value (.bool !b)) := by
  rw [Host.eval, h]
  rfl

theorem eval_asUnit (e : Expr) : host.eval e.asUnit scope = host.eval e scope := by
  rw [Expr.asUnit]
  split
  · rw [Host.eval]
  · rfl

/-! ### The position between two branches -/

/-- The variables between two branches: the reports so far, whether there were none, and no names
but those in a list. -/
structure Reports (scope : Scope) (taken texts : List String) (valid : Bool) : Prop where
  errors : scope.lookup errorsName = some (.texts texts)
  valid : scope.lookup validName = some (.value (.bool valid))
  fresh : ∀ name, name ∉ taken → scope.lookup name = none

variable {taken texts : List String} {valid met : Bool} {name : String} {d : Datum}

theorem Reports.mem_taken (h : Reports scope taken texts valid) (hd : scope.lookup name = some d) :
    name ∈ taken := by
  by_contra hname
  rw [h.fresh name hname] at hd
  cases hd

/-- A new variable leaves the position as it is. -/
theorem Reports.declare (h : Reports scope taken texts valid) (hname : name ∉ taken) (d : Datum) :
    Reports ((name, d) :: scope) (name :: taken) texts valid := by
  have hne : ∀ {other : String} {old : Datum}, scope.lookup other = some old →
      (other == name) = false := by
    intro other old hold
    rw [beq_eq_false_iff_ne]
    rintro rfl
    exact hname (h.mem_taken hold)
  refine ⟨?_, ?_, fun other hother => ?_⟩
  · rw [List.lookup_cons, hne h.errors, h.errors]
  · rw [List.lookup_cons, hne h.valid, h.valid]
  · rw [List.mem_cons, not_or] at hother
    rw [List.lookup_cons, beq_eq_false_iff_ne.mpr hother.1, h.fresh other hother.2]

theorem Reports.mono {taken' : List String} (h : Reports scope taken texts valid)
    (hsubset : taken ⊆ taken') : Reports scope taken' texts valid :=
  ⟨h.errors, h.valid, fun name hname => h.fresh name fun hmem => hname (hsubset hmem)⟩

/-- An assignment takes no name that was free. -/
theorem Reports.fresh_assign {key : String} (h : Reports scope taken texts valid)
    (hkey : key ∈ taken) (d : Datum) (hname : name ∉ taken) :
    (assign key d scope).lookup name = none := by
  have hne : name ≠ key := by
    rintro rfl
    exact hname hkey
  rw [lookup_assign_of_ne hne, h.fresh name hname]

/-- Another list of reports leaves the rest as it is. -/
theorem Reports.note (h : Reports scope taken texts valid) (texts' : List String) :
    Reports (assign errorsName (.texts texts') scope) taken texts' valid := by
  refine ⟨lookup_assign_self h.errors _, ?_, fun name => h.fresh_assign (h.mem_taken h.errors) _⟩
  rw [lookup_assign_of_ne (by decide), h.valid]

/-- So does another conclusion. -/
theorem Reports.conclude (h : Reports scope taken texts valid) (valid' : Bool) :
    Reports (assign validName (.value (.bool valid')) scope) taken texts valid' := by
  refine ⟨?_, lookup_assign_self h.valid _, fun name => h.fresh_assign (h.mem_taken h.valid) _⟩
  rw [lookup_assign_of_ne (by decide), h.errors]

/-! ### One branch -/

theorem eval_var (h : scope.lookup name = some d) : host.eval (.var name) scope = .ok d := by
  rw [Host.eval, h]

/-- The statement that notes a violation. -/
theorem exec_noteViolation (h : Reports scope taken texts valid) (message : String) :
    host.exec (noteViolation message) scope =
      .ok (.goesOn (assign errorsName (.texts (texts ++ [message])) scope)) := by
  have hvar : host.eval (.var errorsName) scope = .ok (.texts texts) := eval_var h.errors
  rw [noteViolation, Host.exec, Host.effect, hvar]
  rfl

/-- A branch that is not met is noted, and one that is met is not. -/
theorem exec_ifThen_note (host : Host) (h : Reports scope taken texts valid)
    (hname : scope.lookup name = some (.value (.bool met))) (message : String) :
    ∃ scope', host.exec (.ifThen (.not (.var name)) [noteViolation message]) scope =
        .ok (.goesOn scope') ∧
      Reports scope' taken (texts ++ if met then [] else [message]) valid ∧
      ∀ other, other ≠ errorsName → scope'.lookup other = scope.lookup other := by
  have hnot : host.eval (.not (.var name)) scope = .ok (.value (.bool !met)) :=
    eval_not (eval_var hname)
  rw [Host.exec, hnot]
  cases met with
  | true =>
    refine ⟨scope, rfl, ?_, fun _ _ => rfl⟩
    rw [if_pos rfl, List.append_nil]
    exact h
  | false =>
    refine ⟨_, ?_, h.note _, fun other hother => lookup_assign_of_ne hother _ _⟩
    -- the block declares nothing, so leaving it drops nothing
    show Outcome.leave scope <$> host.execAll [noteViolation message] scope = _
    rw [Host.execAll_cons (exec_noteViolation h message), Host.execAll, map_ok,
      Outcome.leave_of_length_eq (length_assign ..)]
    rfl

theorem exec_andAssign (h : Reports scope taken texts valid)
    (hname : scope.lookup name = some (.value (.bool met))) :
    host.exec (.andAssign validName (.var name)) scope =
      .ok (.goesOn (assign validName (.value (.bool (valid && met))) scope)) := by
  rw [Host.exec, eval_var h.valid, eval_var hname]
  rfl

/-- An outcome is put into a variable, reported and counted. -/
theorem execAll_report (h : Reports scope taken texts valid) (hname : name ∉ taken) {value : Expr}
    (hvalue : host.eval value scope = .ok (.value (.bool met))) (a : Assignment) :
    ∃ scope', host.execAll (.declare name value :: report name a) scope = .ok (.goesOn scope') ∧
      Reports scope' (name :: taken)
        (texts ++ if met then [] else ["Rule violated: " ++ a.display]) (valid && met) := by
  have hne : name ≠ errorsName := by
    intro heq
    exact hname (heq ▸ h.mem_taken h.errors)
  have hdeclare := Host.exec_declare (h.fresh name hname) hvalue
  have hdeclared := h.declare hname (.value (.bool met))
  obtain ⟨noted, hnote, hnoted, hkept⟩ := exec_ifThen_note host hdeclared
    List.lookup_cons_self ("Rule violated: " ++ a.display)
  have hmet : noted.lookup name = some (.value (.bool met)) :=
    (hkept name hne).trans List.lookup_cons_self
  refine ⟨_, ?_, hnoted.conclude (valid && met)⟩
  rw [report, Host.execAll_cons hdeclare, Host.execAll_cons hnote,
    Host.execAll_cons (exec_andAssign hnoted hmet), Host.execAll]

/-- A function on rows is read in a scope where its parameter is the row. -/
theorem lookup_row (row : Row) :
    ((rowName, Datum.row row) :: scope).lookup rowName = some (.row row) :=
  List.lookup_cons_self

/-- The check of a literal: it is in the target column at every row. -/
theorem eval_all_literal (host : Host) (primary : TableId) {rows : List Row}
    (hrows : scope.lookup name = some (.rows rows))
    (hrow : scope.lookup rowName = none) (target : Cell) (value : Value) :
    host.eval (.invoke (.var name) "All"
      [.lambda rowName (.binary (columnAt primary target) .eq (.literal value))]) scope =
      .ok (.value (.bool
        (decide ((AssignedValue.literal value).MetOn host.book primary rows target)))) := by
  have hbody : ∀ row, host.eval (.binary (columnAt primary target) .eq (.literal value))
      ((rowName, .row row) :: scope) =
      .ok (.value (.bool ((seen host.book primary row target).equal value))) := fun row =>
    eval_comparison .eq rfl (eval_columnAt (lookup_row row) target) rfl
  rw [Host.eval_all_rows (eval_var hrows) hrow hbody]
  congr 3
  rw [Bool.eq_iff_iff, decide_eq_true_iff, List.all_eq_true]
  rfl

/-- The source of a check: the values of a column in the rows. -/
theorem eval_source (host : Host) (primary : TableId) {rows : List Row}
    (hrows : scope.lookup name = some (.rows rows))
    (hrow : scope.lookup rowName = none) (source : Cell) :
    host.eval (.invoke (.invoke (.var name) "Select" [.lambda rowName (columnAt primary source)])
      "ToHashSet" []) scope =
      .ok (.set fun value => (rows.map fun row => seen host.book primary row source).any
        (·.equal value)) :=
  Host.eval_select (eval_var hrows) hrow fun row => eval_columnAt (lookup_row row) source

/-- The check of a column: the set of its values has every value of the target column. -/
theorem eval_all_contained (host : Host) {contains : Value → Bool}
    (hset : scope.lookup name = some (.set contains)) (hvalue : scope.lookup valueName = none)
    (target : Cell) :
    host.eval (.invoke (columnValues target) "All" [containedIn name]) scope =
      .ok (.value (.bool ((host.book.column target.table target.column).all contains))) := by
  have hne : (name == valueName) = false := by
    rw [beq_eq_false_iff_ne]
    rintro rfl
    rw [hvalue] at hset
    cases hset
  refine Host.eval_all_values (host.eval_columnValues scope target) hvalue fun value => ?_
  have hvar : host.eval (.var name) ((valueName, .value value) :: scope) = .ok (.set contains) :=
    eval_var (by rw [List.lookup_cons, hne, hset])
  rw [Host.eval, hvar]
  rfl

theorem decide_metOn_cell (book : Book) (rows : List Row) (target source : Cell) :
    decide ((AssignedValue.cell source).MetOn book primary rows target) =
      (book.column target.table target.column).all fun value =>
        (rows.map fun row => seen book primary row source).any (·.equal value) := by
  rw [Bool.eq_iff_iff, decide_eq_true_iff]
  simp [AssignedValue.MetOn, Cell.table]

/-- The reports on one branch. -/
theorem violations_singleton (book : Book) (a : Assignment) (rows : List Row) :
    violations book primary [(a, rows)] =
      if decide (a.value.MetOn book primary rows a.target) then []
      else ["Rule violated: " ++ a.display] := by
  by_cases h : a.value.MetOn book primary rows a.target <;> simp [violations, h]

/-- The check of a branch goes on to the next position and adds a report if it is not met. -/
theorem execAll_check (host : Host) {branch : String} {a : Assignment} {stmts : List Stmt}
    {rows : List Row} (hcheck : check branch primary a = .ok stmts)
    (h : Reports scope taken texts valid)
    (hrows : scope.lookup (branch ++ "Rows") = some (.rows rows))
    (hnames : ([branch ++ "Valid", branch ++ "Source", rowName, valueName] ++ taken).Nodup) :
    ∃ scope', host.execAll stmts scope = .ok (.goesOn scope') ∧
      Reports scope' ([branch ++ "Valid", branch ++ "Source"] ++ taken)
        (texts ++ violations host.book primary [(a, rows)])
        (valid && decide (a.value.MetOn host.book primary rows a.target)) := by
  simp only [List.cons_append, List.nil_append, List.nodup_cons, List.mem_cons, not_or] at hnames
  obtain ⟨⟨hvs, -, -, hvt⟩, ⟨-, hsv, hst⟩, ⟨-, hrt⟩, hwt, -⟩ := hnames
  have hrow : scope.lookup rowName = none := h.fresh rowName hrt
  rw [violations_singleton]
  obtain ⟨target, value⟩ := a
  cases value with
  | literal value =>
    cases hcheck
    obtain ⟨scope', hrun, hscope'⟩ := execAll_report h hvt
      (eval_all_literal host primary hrows hrow target value) ⟨target, .literal value⟩
    refine ⟨scope', hrun, hscope'.mono ?_⟩
    simp
  | cell source =>
    cases hcheck
    have hset := Host.exec_declare (h.fresh _ hst) (eval_source host primary hrows hrow source)
    have h' := h.declare hst (.set fun value =>
      (rows.map fun row => seen host.book primary row source).any (·.equal value))
    have hvalue := h'.fresh valueName (by simp [hwt, Ne.symm hsv])
    have hvalid : branch ++ "Valid" ∉ (branch ++ "Source") :: taken := by simp [hvs, hvt]
    obtain ⟨scope', hrun, hscope'⟩ := execAll_report h' hvalid
      (eval_all_contained host List.lookup_cons_self hvalue target) ⟨target, .cell source⟩
    rw [decide_metOn_cell]
    exact ⟨scope', (Host.execAll_cons hset).trans hrun, hscope'⟩
  | unresolved text => cases hcheck

/-- The names that a branch takes. -/
def branchNames (branch : String) : List String :=
  [branch ++ "Valid", branch ++ "Source", branch ++ "Rows"]

/-- What is found in one more branch. -/
theorem violations_append_singleton (book : Book) (bs : List (Assignment × List Row))
    (b : Assignment × List Row) :
    violations book primary (bs ++ [b]) =
      violations book primary bs ++ violations book primary [b] := by
  rw [violations, List.filter_append, List.map_append]
  rfl

theorem decide_allMet_append_singleton (book : Book) (bs : List (Assignment × List Row))
    (b : Assignment × List Row) :
    decide (AllMet book primary (bs ++ [b])) =
      (decide (AllMet book primary bs) &&
        decide (b.1.value.MetOn book primary b.2 b.1.target)) := by
  rw [Bool.eq_iff_iff, Bool.and_eq_true, decide_eq_true_iff, decide_eq_true_iff,
    decide_eq_true_iff, AllMet, List.forall_mem_append, List.forall_mem_singleton]
  rfl

/-- One branch after others: its rows are selected, and its check goes on to the next position. -/
theorem execAll_branch (host : Host) {branch : String} {a : Assignment} {stmts : List Stmt}
    {test : Expr} {p : Row → Bool} {bs : List (Assignment × List Row)}
    (hcheck : check branch primary a = .ok stmts)
    (htest : ∀ row, host.eval test ((rowName, .row row) :: scope) = .ok (.value (.bool (p row))))
    (h : Reports scope taken (violations host.book primary bs)
      (decide (AllMet host.book primary bs)))
    (hnames : (branchNames branch ++ [rowName, valueName] ++ taken).Nodup) :
    ∃ scope', host.execAll (selection (branch ++ "Rows") primary test :: stmts) scope =
        .ok (.goesOn scope') ∧
      Reports scope' (branchNames branch ++ taken)
        (violations host.book primary (bs ++ [(a, (host.book.rows primary).filter p)]))
        (decide (AllMet host.book primary
          (bs ++ [(a, (host.book.rows primary).filter p)]))) := by
  -- the selected rows take their name before the check does, so it moves to the names taken
  have hcheckNames : ([branch ++ "Valid", branch ++ "Source", rowName, valueName] ++
      (branch ++ "Rows") :: taken).Nodup := by
    refine (List.Perm.nodup_iff ?_).mp hnames
    exact (List.perm_middle.symm.cons _).cons _
  simp only [branchNames, List.cons_append, List.nil_append, List.nodup_cons, List.mem_cons,
    not_or] at hnames
  obtain ⟨-, -, ⟨-, -, hrows⟩, ⟨-, hrow⟩, -⟩ := hnames
  have hselect := Host.exec_declare (h.fresh _ hrows) (Host.eval_where
    (host.eval_tableRows scope primary) (h.fresh rowName hrow) htest)
  have hselected := h.declare hrows (.rows ((host.book.rows primary).filter p))
  obtain ⟨scope', hrun, hscope'⟩ :=
    execAll_check host hcheck hselected List.lookup_cons_self hcheckNames
  rw [violations_append_singleton, decide_allMet_append_singleton]
  exact ⟨scope', (Host.execAll_cons hselect).trans hrun, hscope'⟩

/-! ### The whole procedure -/

theorem primary_of_nil {r : Rule} (h : r.conditions = []) : r.primary = ⟨"?????", 0⟩ := by
  rw [Rule.primary, h]

theorem primary_of_cons {r : Rule} {first : Condition} {rest : List Condition}
    (h : r.conditions = first :: rest) : r.primary = ⟨first.cell.code, first.cell.part⟩ := by
  rw [Rule.primary, h]
  rfl

/-- The statements of a rule: one branch, or two with an empty line between them. -/
theorem statements_eq_ok {r : Rule} {stmts : List Stmt} (h : r.statements = .ok stmts) :
    ∃ consequent, check "then" r.primary r.consequent = .ok consequent ∧
      ((r.alternative = none ∧
        stmts = .comment r.summary ::
          selection "thenRows" r.primary (rowTest r.primary r.conditions) :: consequent) ∨
      ∃ a alternative, r.alternative = some a ∧
        check "else" r.primary a = .ok alternative ∧
        stmts = (.comment r.summary ::
          selection "thenRows" r.primary (rowTest r.primary r.conditions) :: consequent) ++
          .blank :: selection "elseRows" r.primary
            (.not (rowTest r.primary r.conditions).asUnit) :: alternative) := by
  rw [statements] at h
  cases hthen : check "then" r.primary r.consequent with
  | error e =>
    rw [hthen] at h
    cases h
  | ok consequent =>
    rw [hthen] at h
    refine ⟨consequent, rfl, ?_⟩
    cases halternative : r.alternative with
    | none =>
      rw [halternative] at h
      cases h
      exact .inl ⟨rfl, rfl⟩
    | some a =>
      rw [halternative] at h
      cases helse : check "else" r.primary a with
      | error e =>
        simp only [helse] at h
        cases h
      | ok alternative =>
        simp only [helse] at h
        cases h
        exact .inr ⟨a, alternative, rfl, helse, rfl⟩

/-- The names that the frame takes. -/
def frameNames : List String := [validName, errorsName]

/-- The statements of a rule decide and report on its branches. -/
theorem execAll_statements (host : Host) {r : Rule} {stmts : List Stmt}
    (hcomparisons : ∀ c ∈ r.conditions, c.operator.isComparison = true)
    (hstmts : r.statements = .ok stmts) (h : Reports scope frameNames [] true) :
    ∃ scope' taken, host.execAll stmts scope = .ok (.goesOn scope') ∧
      Reports scope' taken (violations host.book r.primary (r.branches host r.primary))
        (decide (AllMet host.book r.primary (r.branches host r.primary))) := by
  have htest : ∀ (scope : Scope) (row : Row),
      host.eval (rowTest r.primary r.conditions) ((rowName, .row row) :: scope) =
        .ok (.value (.bool (passes host r.primary row r.conditions))) :=
    fun scope row => eval_rowTest (lookup_row row) hcomparisons
  obtain ⟨consequent, hthen, hcases⟩ := statements_eq_ok hstmts
  -- both branches are the same step, from the branches before to the branches with one more
  have hbefore : Reports scope frameNames (violations host.book r.primary [])
      (decide (AllMet host.book r.primary [])) := h
  obtain ⟨mid, hrun, hmid⟩ := execAll_branch host hthen (htest scope) hbefore (by decide)
  have hfirst : host.execAll (.comment r.summary ::
      selection "thenRows" r.primary (rowTest r.primary r.conditions) :: consequent) scope =
      .ok (.goesOn mid) := by
    rw [Host.execAll_cons (by rw [Host.exec])]
    exact hrun
  rcases hcases with ⟨hnone, rfl⟩ | ⟨a, alternative, hsome, helse, rfl⟩
  · refine ⟨mid, branchNames "then" ++ frameNames, hfirst, ?_⟩
    rw [branches, hnone]
    exact hmid
  · obtain ⟨last, hrun', hlast⟩ := execAll_branch host helse
      (fun row => eval_not ((eval_asUnit _).trans (htest mid row))) hmid (by decide)
    refine ⟨last, branchNames "else" ++ (branchNames "then" ++ frameNames), ?_, ?_⟩
    · rw [Host.execAll_append hfirst, Host.execAll_cons (by rw [Host.exec])]
      exact hrun'
    · rw [branches, hsome]
      exact hlast

/-- **The procedure of a rule decides the rule.** The rule is about one table: that of its first
condition, or one that no register has if there is no condition. On every host the procedure ends
without a fault. It returns whether every branch is met on its rows of that table, and has noted
those that are not, in their order. -/
theorem execAll_frame_statements (host : Host) {r : Rule} {stmts : List Stmt}
    (hcomparisons : ∀ c ∈ r.conditions, c.operator.isComparison = true)
    (hstmts : r.statements = .ok stmts) :
    ∃ primary valid scope,
      (r.conditions = [] → primary = ⟨"?????", 0⟩) ∧
      (∀ first rest, r.conditions = first :: rest →
        primary = ⟨first.cell.code, first.cell.part⟩) ∧
      host.execAll (frame stmts) [] = .ok (.returned (.value (.bool valid)) scope) ∧
      (valid = true ↔ AllMet host.book primary (r.branches host primary)) ∧
      scope.lookup errorsName =
        some (.texts (violations host.book primary (r.branches host primary))) := by
  have hstart : Reports [(validName, .value (.bool true)), (errorsName, .texts [])] frameNames []
      true := by
    refine ⟨rfl, rfl, fun name hname => ?_⟩
    simp only [frameNames, List.mem_cons, List.not_mem_nil, or_false, not_or] at hname
    rw [List.lookup_cons, beq_eq_false_iff_ne.mpr hname.1, List.lookup_cons,
      beq_eq_false_iff_ne.mpr hname.2]
    rfl
  obtain ⟨scope, taken, hrun, hend⟩ := execAll_statements host hcomparisons hstmts hstart
  refine ⟨r.primary, _, scope, primary_of_nil, fun _ _ => primary_of_cons, ?_, decide_eq_true_iff,
    hend.errors⟩
  have hframe : host.execAll (frame stmts) [] =
      host.execAll (stmts ++ [.blank, .ret (.var validName)])
        [(validName, .value (.bool true)), (errorsName, .texts [])] := rfl
  rw [hframe, Host.execAll_append hrun, Host.execAll_cons (by rw [Host.exec]), Host.execAll,
    Host.exec, eval_var hend.valid]
  rfl

/-- A rule with two branches: the first assigns a literal, the second a column. -/
def twoBranches : Rule :=
  { conditions := [⟨⟨"10102", 2, 12, "10102212"⟩, .eq, .literal (.text "да"), .first⟩]
    consequent := ⟨⟨"10102", 2, 6, "10102206"⟩, .literal (.text "да")⟩
    alternative := some ⟨⟨"10102", 2, 6, "10102206"⟩, .cell ⟨"10102", 2, 7, "10102207"⟩⟩ }

/-- A host with one table of two rows, one for each branch. -/
def twoRows : Host :=
  { book := ⟨[⟨⟨"10102", 2⟩, [⟨[(6, .text "да"), (12, .text "да")]⟩, ⟨[(7, .null)]⟩]⟩]⟩
    gt := fun _ _ => false
    ge := fun _ _ => false
    lt := fun _ _ => false
    le := fun _ _ => false }

/-- The first branch is met. The second is not: the target column holds a value that the source
column does not hold at the row of the second branch. -/
theorem execAll_frame_statements_unmet_alternative :
    ∃ stmts scope, twoBranches.statements = .ok stmts ∧
      twoRows.execAll (frame stmts) [] = .ok (.returned (.value (.bool false)) scope) ∧
      scope.lookup errorsName =
        some (.texts ["Rule violated: гр10102206 = гр10102207"]) := by
  have hstmts : ∃ stmts, twoBranches.statements = .ok stmts := ⟨_, rfl⟩
  obtain ⟨stmts, hstmts⟩ := hstmts
  obtain ⟨primary, valid, scope, -, hprimary, hrun, hvalid, herrors⟩ :=
    execAll_frame_statements twoRows (by decide) hstmts
  obtain rfl : primary = ⟨"10102", 2⟩ := hprimary _ _ rfl
  have hfalse : valid = false := by
    rw [← Bool.not_eq_true, hvalid]
    decide
  have htexts : violations twoRows.book ⟨"10102", 2⟩ (twoBranches.branches twoRows ⟨"10102", 2⟩) =
      ["Rule violated: гр10102206 = гр10102207"] := by decide
  rw [hfalse] at hrun
  rw [htexts] at herrors
  exact ⟨stmts, scope, hstmts, hrun, herrors⟩

end Rule

end RegisterRules
