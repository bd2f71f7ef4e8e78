import SqlStore.Database.Operation

/-!
# Results of operations

What each operation answers and leaves behind, by the table that it concerns.
-/
namespace SqlStore.Database
set_option autoImplicit false

variable {α β : Type} (db : Database)

@[simp] theorem apply_pure (a : α) : db.apply (pure a : StoreM α) = (.ok a, db) := rfl

@[simp] theorem apply_throw (e : StoreError) : db.apply (throw e : StoreM α) = (.error e, db) := rfl

@[simp] theorem apply_get : db.apply (get : StoreM Database) = (.ok db, db) := rfl

@[simp] theorem apply_modify (f : Database → Database) :
    db.apply (modify f : StoreM Unit) = (.ok (), f db) := rfl

theorem apply_liftM_ok (a : α) :
    db.apply (liftM (Except.ok a : Except StoreError α) : StoreM α) = (.ok a, db) := rfl

theorem apply_liftM_error (e : StoreError) :
    db.apply (liftM (Except.error e : Except StoreError α) : StoreM α) = (.error e, db) := rfl

theorem apply_bind (operation : StoreM α) (next : α → StoreM β) :
    db.apply (operation >>= next) =
      match db.apply operation with
      | (.ok a, after) => after.apply (next a)
      | (.error e, after) => (.error e, after) := by
  unfold apply
  rw [ExceptT.run_bind, StateT.run_bind]
  generalize (ExceptT.run operation).run db = outcome
  rcases outcome with ⟨_ | _, after⟩ <;> rfl

theorem apply_bind_ok {operation : StoreM α} {next : α → StoreM β} {a : α} {after : Database}
    (h : db.apply operation = (.ok a, after)) :
    db.apply (operation >>= next) = after.apply (next a) := by
  rw [apply_bind, h]

theorem apply_bind_error {operation : StoreM α} {next : α → StoreM β} {e : StoreError}
    {after : Database} (h : db.apply operation = (.error e, after)) :
    db.apply (operation >>= next) = (.error e, after) := by
  rw [apply_bind, h]

theorem apply_createTable (name : String) (columns : List Column) :
    db.apply (createTable name columns) =
      if (db.find? name).isSome then (.error (.duplicateTable name), db)
      else
        match Column.firstRepeated? columns with
        | some column => (.error (.duplicateColumn name column.name), db)
        | none => (.ok (), db.put name ⟨name, columns, []⟩) := by
  rw [createTable, apply_bind_ok db (apply_get db)]
  split
  · rfl
  · cases Column.firstRepeated? columns <;> rfl

theorem apply_insert (name : String) (row : Row) :
    db.apply (insert name row) =
      match db.table name with
      | .error e => (.error e, db)
      | .ok table =>
        if row.length = table.columns.length then
          (.ok (), db.put name { table with rows := table.rows ++ [row] })
        else (.error (.arityMismatch table.name table.columns.length row.length), db) := by
  rw [insert, apply_bind_ok db (apply_get db)]
  cases h : db.table name with
  | error e => exact apply_bind_error db (apply_liftM_error db e)
  | ok table =>
    rw [apply_bind_ok db (apply_liftM_ok db table)]
    dsimp only
    split <;> rfl

theorem apply_drop (name : String) :
    db.apply (drop name) = (.ok (db.find? name), db.remove name) := rfl

end SqlStore.Database
