import SqlStore.Database.Invariant

/-!
# What a statement does

A statement that succeeds creates one table or extends one table by rows, and `Executed` says which.
A statement that fails changes nothing: the rows of an insertion are made from the row without
values of the table itself, so they all have its length, and once the names of the columns are found
none of them can be refused.
-/
namespace SqlStore
set_option autoImplicit false

@[simp] theorem Row.length_write (row : Row) (positions : List Nat) (values : Row) :
    (row.write positions values).length = row.length := by
  rw [Row.write]
  generalize positions.zip values = entries
  induction entries generalizing row with
  | nil => rfl
  | cons entry rest ih => rw [List.foldl_cons, ih, List.length_set]

namespace Table

@[simp] theorem length_template (table : Table) : table.template.length = table.columns.length :=
  List.length_map _

def extend (table : Table) (rows : List Row) : Table :=
  { table with rows := table.rows ++ rows }

@[simp] theorem extend_name (table : Table) (rows : List Row) :
    (table.extend rows).name = table.name := rfl

@[simp] theorem extend_columns (table : Table) (rows : List Row) :
    (table.extend rows).columns = table.columns := rfl

@[simp] theorem extend_rows (table : Table) (rows : List Row) :
    (table.extend rows).rows = table.rows ++ rows := rfl

@[simp] theorem extend_nil (table : Table) : table.extend [] = table := by
  simp [extend]

@[simp] theorem extend_extend (table : Table) (rows others : List Row) :
    (table.extend rows).extend others = table.extend (rows ++ others) := by
  simp [extend]

/-- The rows that an insertion makes of its values, if the columns that it names stand at the given
positions. -/
def filled (table : Table) (positions : List Nat) (values : List Row) : List Row :=
  values.map (Row.write table.template positions)

@[simp] theorem length_filled (table : Table) (positions : List Nat) (values : List Row) :
    (table.filled positions values).length = values.length :=
  List.length_map _

theorem length_of_mem_filled {table : Table} {positions : List Nat} {values : List Row} {row : Row}
    (h : row ∈ table.filled positions values) : row.length = table.columns.length := by
  obtain ⟨values, -, rfl⟩ := List.mem_map.mp h
  rw [Row.length_write, length_template]

theorem sound_mk {name : String} {columns : List Column} (h : (columns.map Column.name).Nodup) :
    Sound ⟨name, columns, []⟩ where
  distinct := h
  filled _ hRow := nomatch hRow

theorem Sound.extend {table : Table} {rows : List Row} (h : table.Sound)
    (hRows : ∀ row ∈ rows, row.length = table.columns.length) : (table.extend rows).Sound where
  distinct := h.distinct
  filled row hRow := by
    rw [extend_rows, List.mem_append] at hRow
    exact hRow.elim (h.filled row) (hRows row)

end Table

namespace Database

theorem find?_put_self (db : Database) (name : String) (table : Table) :
    (db.put name table).find? name = some table := by
  rw [find?_put, if_pos rfl]

theorem put_put (db : Database) (name : String) (a b : Table) :
    (db.put name a).put name b = db.put name b :=
  ext_find? fun other => by
    simp only [find?_put]
    split <;> rfl

theorem put_of_find? {db : Database} {name : String} {table : Table}
    (h : db.find? name = some table) : db.put name table = db :=
  ext_find? fun other => by
    rw [find?_put]
    split
    · rename_i hName
      rw [← hName, h]
    · rfl

theorem table_eq_ok_iff {db : Database} {name : String} {table : Table} :
    db.table name = .ok table ↔ db.find? name = some table := by
  unfold Database.table
  split
  · rename_i hFind
    rw [hFind, Except.ok.injEq, Option.some.injEq]
  · rename_i hFind
    simp [hFind]

theorem apply_insert_of_find? {db : Database} {name : String} {table : Table} {row : Row}
    (h : db.find? name = some table) (hLength : row.length = table.columns.length) :
    db.apply (insert name row) = (.ok (), db.put name (table.extend [row])) := by
  rw [apply_insert, table_eq_ok_iff.mpr h]
  exact if_pos hLength

theorem apply_forM_insert {db : Database} {name : String} {table : Table} {rows : List Row}
    (h : db.find? name = some table) (hRows : ∀ row ∈ rows, row.length = table.columns.length) :
    db.apply (forM rows (insert name)) = (.ok (), db.put name (table.extend rows)) := by
  induction rows generalizing db table with
  | nil => rw [List.forM_nil, apply_pure, Table.extend_nil, put_of_find? h]
  | cons row rest ih =>
    obtain ⟨hRow, hRest⟩ := List.forall_mem_cons.mp hRows
    rw [List.forM_cons, apply_bind_ok db (apply_insert_of_find? h hRow),
      ih (find?_put_self db name (table.extend [row])) hRest, put_put, Table.extend_extend,
      List.singleton_append]

theorem apply_executeInsert (db : Database) (statement : InsertInto) :
    db.apply (executeInsert statement) =
      match db.table statement.table with
      | .error e => (.error e, db)
      | .ok table =>
        match table.positions statement.columns with
        | .error e => (.error e, db)
        | .ok positions =>
          (.ok statement.rows.length,
            db.put statement.table (table.extend (table.filled positions statement.rows))) := by
  rw [executeInsert, apply_bind_ok db (apply_get db)]
  cases hTable : db.table statement.table with
  | error e => exact apply_bind_error db (apply_liftM_error db e)
  | ok table =>
    rw [apply_bind_ok db (apply_liftM_ok db table)]
    dsimp only
    cases table.positions statement.columns with
    | error e => exact apply_bind_error db (apply_liftM_error db e)
    | ok positions =>
      have hRows : ∀ row ∈ table.filled positions statement.rows,
          row.length = table.columns.length := fun _ => Table.length_of_mem_filled
      rw [apply_bind_ok db (apply_liftM_ok db positions)]
      refine (apply_bind_ok db (apply_forM_insert (table_eq_ok_iff.mp hTable) hRows)).trans ?_
      rw [apply_pure, List.length_map]

/-- The statement succeeds with this number of inserted rows and leaves this database behind. -/
inductive Executed (db : Database) : Statement → Nat → Database → Prop
  | created {statement : CreateTable} (hFresh : db.find? statement.table = none)
      (hDistinct : (statement.columns.map Column.name).Nodup) :
      Executed db (.createTable statement) 0
        (db.put statement.table ⟨statement.table, statement.columns, []⟩)
  | inserted {statement : InsertInto} {table : Table} {positions : List Nat}
      (hFound : db.find? statement.table = some table)
      (hPositions : table.positions statement.columns = .ok positions) :
      Executed db (.insertInto statement) statement.rows.length
        (db.put statement.table (table.extend (table.filled positions statement.rows)))

theorem apply_execute_cases (db : Database) (statement : Statement) :
    (∃ count after, db.apply (execute statement) = (.ok count, after) ∧
      db.Executed statement count after) ∨
    ∃ e, db.apply (execute statement) = (.error e, db) := by
  cases statement with
  | createTable statement =>
    rw [execute, apply_bind, apply_createTable]
    by_cases hFresh : (db.find? statement.table).isSome
    · rw [if_pos hFresh]
      exact .inr ⟨_, rfl⟩
    · rw [if_neg hFresh]
      cases hRepeated : Column.firstRepeated? statement.columns with
      | some column => exact .inr ⟨_, rfl⟩
      | none =>
        exact .inl ⟨0, _, rfl, .created (by simpa using hFresh)
          (Column.firstRepeated?_eq_none_iff.mp hRepeated)⟩
  | insertInto statement =>
    rw [execute, apply_executeInsert]
    cases hTable : db.table statement.table with
    | error e => exact .inr ⟨e, rfl⟩
    | ok table =>
      dsimp only
      cases hPositions : table.positions statement.columns with
      | error e => exact .inr ⟨e, rfl⟩
      | ok positions =>
        exact .inl ⟨_, _, rfl, .inserted (table_eq_ok_iff.mp hTable) hPositions⟩

theorem executed_of_apply_execute {db after : Database} {statement : Statement} {count : Nat}
    (h : db.apply (execute statement) = (.ok count, after)) : db.Executed statement count after := by
  rcases apply_execute_cases db statement with ⟨_, _, hApply, hExecuted⟩ | ⟨e, hApply⟩
  · cases hApply.symm.trans h
    exact hExecuted
  · cases hApply.symm.trans h

theorem eq_of_apply_execute_error {db after : Database} {statement : Statement} {e : StoreError}
    (h : db.apply (execute statement) = (.error e, after)) : after = db := by
  rcases apply_execute_cases db statement with ⟨_, _, hApply, -⟩ | ⟨_, hApply⟩ <;>
    cases hApply.symm.trans h
  rfl

end Database
end SqlStore
