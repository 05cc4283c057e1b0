import RegisterRules.Cell
import RegisterRules.Value

/-!
# Register tables

A generated procedure reads and writes tables by register code, table part and column. A book holds
the tables of a host, at most one for each register and part. Whatever is not there reads as
nothing: a column that a row lacks, a row that a table lacks, a table that the book lacks.

## Main definitions

* `Row`, `Row.get`, `Row.set`: the columns of a row.
* `Table`, `Table.get`, `Table.set`, `Table.column`: the rows of a table.
* `Book`, `Book.find?`, `Book.insert`: the tables of a host.
* `Book.rows`, `Book.cellValue`, `Book.column`, `Book.setCell`: what generated code may ask of them.

## Main results

* `Row.get_set_self`, `Row.get_set_of_ne`: a column that is set, and the others.
* `Book.find?_insert_self`, `Book.find?_insert_of_ne`: a table that is inserted, and the others.
-/

namespace RegisterRules

/-- A row: the columns that were written, in ascending order, with their values. -/
structure Row where
  cells : List (UInt32 × Value)
deriving DecidableEq

namespace Row

/-- The row without columns. -/
def empty : Row := ⟨[]⟩

/-- The value of a column. -/
def get (row : Row) (column : UInt32) : Value := (row.cells.lookup column).getD .null

/-- Put a column among ascending ones, in place of the one with its number if there is one. -/
def put (column : UInt32) (value : Value) : List (UInt32 × Value) → List (UInt32 × Value)
  | [] => [(column, value)]
  | (c, v) :: rest =>
    if column < c then (column, value) :: (c, v) :: rest
    else if column = c then (column, value) :: rest
    else (c, v) :: put column value rest

/-- The row with another value in a column. -/
def set (row : Row) (column : UInt32) (value : Value) : Row := ⟨put column value row.cells⟩

/-- The row with the given columns; of two values for one column the later counts. -/
def ofList (cells : List (UInt32 × Value)) : Row :=
  cells.foldl (fun row (column, value) => row.set column value) empty

/-- Whether two rows have the same columns with equal values. -/
def equal (a b : Row) : Bool :=
  a.cells.length == b.cells.length &&
    (a.cells.zip b.cells).all fun ((c, v), (d, w)) => c == d && v.equal w

theorem lookup_put_self (column : UInt32) (value : Value) (cells : List (UInt32 × Value)) :
    (put column value cells).lookup column = some value := by
  induction cells with
  | nil => simp [put]
  | cons cell rest ih =>
    obtain ⟨c, v⟩ := cell
    rw [put]
    split
    · simp
    · split
      · simp
      · next hne => simp [List.lookup_cons, beq_eq_false_iff_ne.mpr hne, ih]

theorem lookup_put_of_ne {column other : UInt32} (h : other ≠ column) (value : Value)
    (cells : List (UInt32 × Value)) :
    (put column value cells).lookup other = cells.lookup other := by
  have hbeq : (other == column) = false := beq_eq_false_iff_ne.mpr h
  induction cells with
  | nil => simp [put, List.lookup_cons, hbeq]
  | cons cell rest ih =>
    obtain ⟨c, v⟩ := cell
    rw [put]
    split
    · simp [List.lookup_cons, hbeq]
    · split
      · next heq => subst heq; simp [List.lookup_cons, hbeq]
      · simp [List.lookup_cons, ih]

@[simp] theorem get_set_self (row : Row) (column : UInt32) (value : Value) :
    (row.set column value).get column = value := by
  simp [get, set, lookup_put_self]

theorem get_set_of_ne {column other : UInt32} (h : other ≠ column) (row : Row) (value : Value) :
    (row.set column value).get other = row.get other := by
  simp [get, set, lookup_put_of_ne h]

end Row

/-- One table part of a register. -/
structure Table where
  id : TableId
  rows : List Row
deriving DecidableEq

namespace Table

/-- A table without rows. -/
def empty (id : TableId) : Table := ⟨id, []⟩

/-- The table with one more row at its end. -/
def push (t : Table) (row : Row) : Table := { t with rows := t.rows ++ [row] }

/-- The value of a column in a row; nothing if there is no such row. -/
def get (t : Table) (row : Nat) (column : UInt32) : Value :=
  match t.rows[row]? with
  | some r => r.get column
  | none => .null

/-- The table with another value in a column of a row; the same table if there is no such row. -/
def set (t : Table) (row : Nat) (column : UInt32) (value : Value) : Table :=
  { t with rows := t.rows.modify row (·.set column value) }

/-- The values of a column in all rows. -/
def column (t : Table) (column : UInt32) : List Value := t.rows.map (·.get column)

/-- Whether two tables have the same place and equal rows. -/
def equal (a b : Table) : Bool :=
  a.id == b.id && a.rows.length == b.rows.length &&
    (a.rows.zip b.rows).all fun (r, s) => r.equal s

end Table

/-- The tables of a host, at most one for each register and part. -/
structure Book where
  tables : List Table
deriving DecidableEq

namespace Book

/-- The book without tables. -/
def empty : Book := ⟨[]⟩

/-- The table of a register and part. -/
def find? (b : Book) (id : TableId) : Option Table := b.tables.find? (·.id = id)

/-- Put a table among others, in place of the one with its register and part if there is one. -/
def put (table : Table) : List Table → List Table
  | [] => [table]
  | t :: rest => if t.id = table.id then table :: rest else t :: put table rest

/-- The book with a table, which replaces the one with the same register and part. -/
def insert (b : Book) (table : Table) : Book := ⟨put table b.tables⟩

theorem find?_put_self (table : Table) (tables : List Table) :
    (put table tables).find? (·.id = table.id) = some table := by
  induction tables with
  | nil => simp [put]
  | cons t rest ih =>
    rw [put]
    split
    · simp
    · next hne => simp [hne, ih]

theorem find?_put_of_ne {id : TableId} {table : Table} (h : id ≠ table.id) (tables : List Table) :
    (put table tables).find? (·.id = id) = tables.find? (·.id = id) := by
  induction tables with
  | nil => simp [put, h.symm]
  | cons t rest ih =>
    rw [put]
    split
    · next heq => simp [heq, h.symm]
    · simp only [List.find?_cons, ih]

@[simp] theorem find?_insert_self (b : Book) (table : Table) :
    (b.insert table).find? table.id = some table :=
  find?_put_self table b.tables

theorem find?_insert_of_ne {id : TableId} {table : Table} (h : id ≠ table.id) (b : Book) :
    (b.insert table).find? id = b.find? id :=
  find?_put_of_ne h b.tables

theorem id_of_find? {b : Book} {id : TableId} {table : Table} (h : b.find? id = some table) :
    table.id = id := by
  simpa using List.find?_some h

/-- The number of tables. -/
def size (b : Book) : Nat := b.tables.length

/-! ### Access from generated code -/

/-- The rows of a table; none if the book lacks it. -/
def rows (b : Book) (id : TableId) : List Row :=
  match b.find? id with
  | some t => t.rows
  | none => []

/-- The value of a column in the first row of a table. -/
def cellValue (b : Book) (id : TableId) (column : UInt32) : Value :=
  match b.find? id with
  | some t => t.get 0 column
  | none => .null

/-- The values of a column in all rows of a table. -/
def column (b : Book) (id : TableId) (column : UInt32) : List Value :=
  match b.find? id with
  | some t => t.column column
  | none => []

/-- A table with at least one row: its own, or a row without columns. -/
def withRow (t : Table) : Table := if t.rows.isEmpty then t.push Row.empty else t

/-- The book with another value in a column of the first row of a table. Table and row are made if
they are missing. -/
def setCell (b : Book) (id : TableId) (column : UInt32) (value : Value) : Book :=
  b.insert ((withRow ((b.find? id).getD (Table.empty id))).set 0 column value)

end Book

end RegisterRules
