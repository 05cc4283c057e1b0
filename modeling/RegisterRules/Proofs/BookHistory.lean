import Mathlib.Data.List.DropRight
import Mathlib.Data.List.Nodup
import RegisterRules.Table

/-!
# What a book remembers of its history

A host changes its book in two ways: it inserts a whole table, or it sets one column of the first
row of a table. This module says what a book holds after any sequence of such changes, starting
from the book without tables.

## Reading a history

The value at an address is told by the history alone. An insert ends the memory of everything that
was written to the table before, so only the writes behind the last insert of the table count, and
of those to the address the last. Where there is none, the inserted table answers for its first row.

## What carries the induction

A book may hold a table that cannot be found, behind another one with the same register and part. No
sequence of changes leads to such a book: the registers and parts of its tables stay distinct
(`Distinct`), since `put` replaces a table in its place and appends one only if its register and
part are new (`map_id_put`).

## Main definitions

* `Book.Change`, `Book.after`: a change, and the book after a history of changes.
* `Book.recalled`: the value at an address as the history tells it.
* `Book.WritesOnly`, `Book.ViewsAgree`: what a write may do, and how the three views agree.

## Main results

* `Book.rows_setCell`: the rows of a table after a write.
* `Book.cellValue_after`: a read gives what the history tells.
* `Book.distinct_after`: no table hides another.
* `Book.after_faithful`: both over whole histories, with the frame of a write and the three views.
-/

namespace RegisterRules

namespace Book

/-! ### Histories -/

/-- A change that a host makes to its book. -/
inductive Change where
  /-- A table is put in, in place of the one with the same register and part. -/
  | insert (table : Table)
  /-- A column of the first row of a table gets a value. -/
  | setCell (id : TableId) (column : UInt32) (value : Value)
deriving DecidableEq

/-- The book after one change. -/
def apply (b : Book) : Change → Book
  | .insert table => b.insert table
  | .setCell id column value => b.setCell id column value

/-- The book after a history of changes, the first of them made to the book without tables. -/
def after (history : List Change) : Book := history.foldl apply empty

theorem after_concat (history : List Change) (change : Change) :
    after (history ++ [change]) = (after history).apply change := by
  simp [after]

/-- The table that a change inserts for a register and part. -/
def Change.inserted? (id : TableId) : Change → Option Table
  | .insert table => if table.id = id then some table else none
  | .setCell .. => none

/-- The value that a change writes at an address. -/
def Change.written? (id : TableId) (column : UInt32) : Change → Option Value
  | .insert _ => none
  | .setCell id' column' value => if id' = id ∧ column' = column then some value else none

/-- The table that was inserted last for a register and part. -/
def lastInserted? (history : List Change) (id : TableId) : Option Table :=
  (history.filterMap (·.inserted? id)).getLast?

/-- The changes behind the last insert for a register and part. -/
def sinceInsert (history : List Change) (id : TableId) : List Change :=
  history.rtakeWhile fun change => (change.inserted? id).isNone

/-- The value that was written last at an address since the last insert of its table. -/
def lastWritten? (history : List Change) (id : TableId) (column : UInt32) : Option Value :=
  ((sinceInsert history id).filterMap (·.written? id column)).getLast?

/-- The value of a column in the first of some rows; nothing if there is none. -/
def firstValue (column : UInt32) : List Row → Value
  | [] => .null
  | row :: _ => row.get column

/-- The value at an address as the history tells it: what was written last since the last insert,
or else what the inserted table has in its first row, or else nothing. -/
def recalled (history : List Change) (id : TableId) (column : UInt32) : Value :=
  match lastWritten? history id column, lastInserted? history id with
  | some value, _ => value
  | none, some table => firstValue column table.rows
  | none, none => .null

-- An insert ends the memory of what was written before it.
example : recalled [.setCell ⟨"10102", 2⟩ 3 (.bool true), .insert (Table.empty ⟨"10102", 2⟩)]
    ⟨"10102", 2⟩ 3 = .null := by decide

/-! ### Tables that are found -/

/-- No two tables of a book have the same register and part. -/
def Distinct (b : Book) : Prop := (b.tables.map (·.id)).Nodup

variable {b : Book} {id : TableId} {column : UInt32}

theorem isSome_find?_iff (b : Book) (id : TableId) :
    (b.find? id).isSome = true ↔ id ∈ b.tables.map (·.id) := by
  simp [find?, List.find?_isSome]

/-- A table takes the place of the one with its register and part, or the place behind all. -/
theorem map_id_put (table : Table) (tables : List Table) :
    (put table tables).map (·.id) =
      if table.id ∈ tables.map (·.id) then tables.map (·.id)
      else tables.map (·.id) ++ [table.id] := by
  induction tables with
  | nil => simp [put]
  | cons t rest ih =>
    rw [put]
    by_cases h : t.id = table.id
    · simp [h]
    · have hiff : table.id ∈ (t :: rest).map (·.id) ↔ table.id ∈ rest.map (·.id) := by
        rw [List.map_cons, List.mem_cons, or_iff_right (Ne.symm h)]
      rw [if_neg h, List.map_cons, ih]
      simp only [hiff]
      split <;> rfl

/-- Inserting keeps the registers and parts distinct. -/
theorem Distinct.insert (h : b.Distinct) (table : Table) : (b.insert table).Distinct := by
  rw [Distinct, Book.insert, map_id_put]
  split
  · exact h
  · next hnew => exact List.nodup_append.mpr ⟨h, List.nodup_singleton _, by simpa using hnew⟩

/-- In such a book every table is found under its own register and part, and nowhere else. -/
theorem Distinct.find?_eq_some_iff (h : b.Distinct) {table : Table} :
    b.find? id = some table ↔ table ∈ b.tables ∧ table.id = id := by
  constructor
  · intro hfind
    exact ⟨List.mem_of_find?_eq_some hfind, id_of_find? hfind⟩
  · rintro ⟨hmem, rfl⟩
    obtain ⟨found, hfound⟩ :=
      Option.isSome_iff_exists.mp ((isSome_find?_iff b table.id).mpr (List.mem_map_of_mem hmem))
    have hsame : found = table :=
      List.inj_on_of_nodup_map h (List.mem_of_find?_eq_some hfound) hmem (id_of_find? hfound)
    rw [hfound, hsame]

theorem size_insert (b : Book) (table : Table) :
    (b.insert table).size = if (b.find? table.id).isSome then b.size else b.size + 1 := by
  have hlength := congrArg List.length (map_id_put table b.tables)
  simp only [isSome_find?_iff, size, Book.insert]
  rw [List.length_map] at hlength
  rw [hlength]
  split <;> simp

/-! ### A write -/

/-- A write goes to the table of its address. -/
theorem id_getD_find? (b : Book) (id : TableId) :
    ((b.find? id).getD (Table.empty id)).id = id := by
  rcases h : b.find? id with - | table
  · rfl
  · exact id_of_find? h

theorem id_withRow (t : Table) : (withRow t).id = t.id := by
  rw [withRow]
  split <;> rfl

theorem rows_withRow (t : Table) : (withRow t).rows = t.rows.headD Row.empty :: t.rows.tail := by
  rw [withRow]
  rcases h : t.rows with - | ⟨row, rest⟩
  · simp [Table.push, h]
  · simp [h]

/-- The table that a write leaves under its address. -/
def overwritten (b : Book) (id : TableId) (column : UInt32) (value : Value) : Table :=
  (withRow ((b.find? id).getD (Table.empty id))).set 0 column value

theorem id_overwritten (b : Book) (id : TableId) (column : UInt32) (value : Value) :
    (b.overwritten id column value).id = id := by
  rw [overwritten, Table.set, id_withRow, id_getD_find?]

theorem find?_setCell_self (b : Book) (id : TableId) (column : UInt32) (value : Value) :
    (b.setCell id column value).find? id = some (b.overwritten id column value) := by
  have h := find?_insert_self b (b.overwritten id column value)
  rwa [id_overwritten] at h

theorem find?_setCell_of_ne {other : TableId} (h : other ≠ id) (b : Book) (column : UInt32)
    (value : Value) : (b.setCell id column value).find? other = b.find? other :=
  find?_insert_of_ne (by rwa [← id_overwritten b id column value] at h) b

/-- **The rows of a table after a write.** -/
theorem rows_setCell (b : Book) (id : TableId) (column : UInt32) (value : Value) :
    (b.setCell id column value).rows id =
      ((b.rows id).headD Row.empty).set column value :: (b.rows id).tail := by
  have hrows : ((b.find? id).getD (Table.empty id)).rows = b.rows id := by
    rw [rows]
    rcases b.find? id with - | table <;> rfl
  rw [rows, find?_setCell_self]
  simp [overwritten, Table.set, rows_withRow, hrows]

/-! ### The three views -/

/-- How the rows of a table, a column of it and a single cell agree. -/
structure ViewsAgree (b : Book) (id : TableId) (column : UInt32) : Prop where
  length : (b.column id column).length = (b.rows id).length
  values : ∀ i : ℕ, (b.column id column)[i]? = (b.rows id)[i]?.map fun row : Row => row.get column
  first : b.cellValue id column = (b.column id column).head?.getD .null

theorem column_eq_map_rows (b : Book) (id : TableId) (column : UInt32) :
    b.column id column = (b.rows id).map (·.get column) := by
  rw [Book.column, rows]
  rcases b.find? id with - | table <;> rfl

theorem cellValue_eq_firstValue (b : Book) (id : TableId) (column : UInt32) :
    b.cellValue id column = firstValue column (b.rows id) := by
  rw [cellValue, rows]
  rcases b.find? id with - | table
  · rfl
  · rcases h : table.rows with - | ⟨row, rest⟩ <;> simp [Table.get, h, firstValue]

theorem viewsAgree (b : Book) (id : TableId) (column : UInt32) : b.ViewsAgree id column where
  length := by rw [column_eq_map_rows, List.length_map]
  values i := by rw [column_eq_map_rows, List.getElem?_map]
  first := by
    rw [cellValue_eq_firstValue, column_eq_map_rows]
    rcases b.rows id with - | ⟨row, rest⟩ <;> rfl

/-! ### The frame of a write -/

/-- What a write of a value at an address may do: the column has the value, and nothing else is
different but for a table and a row that had to be made. -/
structure WritesOnly (b : Book) (id : TableId) (column : UInt32) (value : Value) (b' : Book) :
    Prop where
  value : b'.cellValue id column = value
  /-- The other columns of the first row have the same entries, and lack the same ones. -/
  columns : ∀ other ≠ column, ((b'.rows id).headD Row.empty).cells.lookup other =
    ((b.rows id).headD Row.empty).cells.lookup other
  laterRows : (b'.rows id).tail = (b.rows id).tail
  rowCount : (b'.rows id).length = if b.rows id = [] then 1 else (b.rows id).length
  tables : ∀ other ≠ id, b'.find? other = b.find? other
  found : (b'.find? id).isSome = true
  tableCount : b'.size = if (b.find? id).isSome then b.size else b.size + 1

theorem writesOnly_setCell (b : Book) (id : TableId) (column : UInt32) (value : Value) :
    b.WritesOnly id column value (b.setCell id column value) where
  value := by simp [cellValue_eq_firstValue, rows_setCell, firstValue]
  columns other h := by
    rw [rows_setCell, List.headD_cons, Row.set, Row.lookup_put_of_ne h]
  laterRows := by rw [rows_setCell, List.tail_cons]
  rowCount := by
    rw [rows_setCell]
    rcases b.rows id with - | ⟨row, rest⟩ <;> simp
  tables other h := find?_setCell_of_ne h b column value
  found := by rw [find?_setCell_self]; rfl
  tableCount := by
    have h := size_insert b (b.overwritten id column value)
    rwa [id_overwritten] at h

/-! ### Whole histories -/

theorem Distinct.apply (h : b.Distinct) (change : Change) : (b.apply change).Distinct := by
  cases change with
  | insert table => exact h.insert table
  | setCell id column value => exact h.insert _

/-- **No table hides another.** -/
theorem distinct_after (history : List Change) : (after history).Distinct := by
  induction history using List.reverseRecOn with
  | nil => exact List.nodup_nil
  | append_singleton history change ih =>
    rw [after_concat]
    exact ih.apply change

/-- A read after an insert: the inserted table answers for its own register and part. -/
theorem cellValue_insert (b : Book) (table : Table) (id : TableId) (column : UInt32) :
    (b.insert table).cellValue id column =
      if table.id = id then firstValue column table.rows
      else b.cellValue id column := by
  split
  · next h =>
    subst h
    rw [cellValue_eq_firstValue, rows, find?_insert_self]
  · next h => rw [cellValue, find?_insert_of_ne (Ne.symm h), cellValue]

/-- A read after a write. -/
theorem cellValue_setCell (b : Book) (id id' : TableId) (column column' : UInt32) (value : Value) :
    (b.setCell id' column' value).cellValue id column =
      if id' = id ∧ column' = column then value else b.cellValue id column := by
  split
  · next h =>
    obtain ⟨rfl, rfl⟩ := h
    exact (writesOnly_setCell b id' column' value).value
  · next h =>
    by_cases hid : id' = id
    · subst hid
      have hcolumn : column ≠ column' := fun he => h ⟨rfl, he.symm⟩
      rw [cellValue_eq_firstValue, rows_setCell, cellValue_eq_firstValue]
      rcases b.rows id' with - | ⟨row, rest⟩
      · exact Row.get_set_of_ne hcolumn Row.empty value
      · exact Row.get_set_of_ne hcolumn row value
    · rw [cellValue, find?_setCell_of_ne (Ne.symm hid), cellValue]

theorem lastInserted?_concat (history : List Change) (change : Change) (id : TableId) :
    lastInserted? (history ++ [change]) id =
      (change.inserted? id).or (lastInserted? history id) := by
  rw [lastInserted?, List.filterMap_append, List.getLast?_append, lastInserted?]
  rcases h : change.inserted? id with - | table <;> simp [h]

/-- An insert makes the history forget what was written before it. -/
theorem lastWritten?_concat_of_inserted {change : Change} {table : Table}
    (h : change.inserted? id = some table) (history : List Change) (column : UInt32) :
    lastWritten? (history ++ [change]) id column = none := by
  rw [lastWritten?, sinceInsert, List.rtakeWhile_concat_neg _ _ _ (by simp [h])]
  rfl

theorem lastWritten?_concat {change : Change} (h : change.inserted? id = none)
    (history : List Change) (column : UInt32) :
    lastWritten? (history ++ [change]) id column =
      (change.written? id column).or (lastWritten? history id column) := by
  rw [lastWritten?, sinceInsert, List.rtakeWhile_concat_pos _ _ _ (by simp [h]),
    List.filterMap_append, List.getLast?_append, lastWritten?, sinceInsert]
  rcases h : change.written? id column with - | value <;> simp [h]

theorem recalled_concat_insert (history : List Change) (table : Table) (id : TableId)
    (column : UInt32) :
    recalled (history ++ [.insert table]) id column =
      if table.id = id then firstValue column table.rows else recalled history id column := by
  split
  · next h =>
    have hinserted : (Change.insert table).inserted? id = some table := if_pos h
    rw [recalled, lastWritten?_concat_of_inserted hinserted, lastInserted?_concat, hinserted]
    rfl
  · next h =>
    have hinserted : (Change.insert table).inserted? id = none := if_neg h
    rw [recalled, lastWritten?_concat hinserted, lastInserted?_concat, hinserted]
    rfl

theorem recalled_concat_setCell (history : List Change) (id id' : TableId)
    (column column' : UInt32) (value : Value) :
    recalled (history ++ [.setCell id' column' value]) id column =
      if id' = id ∧ column' = column then value else recalled history id column := by
  have hinserted : (Change.setCell id' column' value).inserted? id = none := rfl
  rw [recalled, lastWritten?_concat hinserted, lastInserted?_concat, hinserted]
  by_cases h : id' = id ∧ column' = column
  · rw [Change.written?, if_pos h, if_pos h]
    rfl
  · rw [Change.written?, if_neg h, if_neg h]
    rfl

/-- **A read gives what the history tells.** -/
theorem cellValue_after (history : List Change) (id : TableId) (column : UInt32) :
    (after history).cellValue id column = recalled history id column := by
  induction history using List.reverseRecOn with
  | nil => rfl
  | append_singleton history change ih =>
    rw [after_concat]
    cases change with
    | insert table => rw [apply, cellValue_insert, recalled_concat_insert, ih]
    | setCell id' column' value => rw [apply, cellValue_setCell, recalled_concat_setCell, ih]

/-- **A book is a faithful store over whole histories.** After any sequence of inserts and writes,
every table stands under its own register and part and under no other; a read gives the value that
was written last since the table was inserted, or else what the inserted table has, or else nothing;
a write changes its column and nothing else, and makes the table and its first row only if they are
missing; and the rows, the columns and the single cells tell the same. -/
theorem after_faithful (history : List Change) :
    (∀ id table, (after history).find? id = some table ↔
      table ∈ (after history).tables ∧ table.id = id) ∧
    (∀ id column, (after history).cellValue id column = recalled history id column) ∧
    (∀ id column value, (after history).WritesOnly id column value
      (after (history ++ [.setCell id column value]))) ∧
    (∀ id column, (after history).ViewsAgree id column) := by
  refine ⟨fun id table => (distinct_after history).find?_eq_some_iff, cellValue_after history,
    fun id column value => ?_, viewsAgree (after history)⟩
  rw [after_concat]
  exact writesOnly_setCell (after history) id column value

end Book

end RegisterRules
