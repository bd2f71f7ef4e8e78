import Mathlib.Data.List.Forall2
import SqlStore.Proofs.Database.Execute

/-!
# Failing operations

An operation that fails has changed nothing, although an insertion stores its rows one after the
other. Once its table and its columns are found, every value is written to a cell of its row, and
every row has the length that the table asks for. So an insertion stores all of its rows or none.
-/
namespace SqlStore
set_option autoImplicit false

/-! ### Positions -/

namespace Table

variable {table : Table} {columns : List String} {positions : List Nat}

theorem getElem?_of_position? {column : String} {position : Nat}
    (h : table.position? column = some position) :
    table.columnNames[position]? = some column := by
  obtain ⟨hLength, hName, -⟩ := List.idxOf?_eq_some_iff.mp h
  rw [List.getElem?_eq_getElem hLength, hName]

theorem positions_eq_ok_iff :
    table.positions columns = .ok positions ↔
      List.Forall₂ (fun column position => table.position? column = some position)
        columns positions := by
  rw [Table.positions]
  induction columns generalizing positions with
  | nil => cases positions <;> simp [pure, Except.pure]
  | cons column rest ih =>
    rw [List.mapM_cons]
    cases hPosition : table.position? column with
    | none => cases positions <;> simp [bind, Except.bind, hPosition]
    | some position =>
      cases positions with
      | nil =>
        simp only [bind, Except.bind]
        split <;> simp [pure, Except.pure]
      | cons first others =>
        simp only [bind, Except.bind, List.forall₂_cons, ← ih, hPosition]
        split
        · rename_i hRest
          simp [hRest]
        · rename_i hRest
          simp [hRest, pure, Except.pure]

theorem map_getElem?_of_positions (h : table.positions columns = .ok positions) :
    positions.map (table.columnNames[·]?) = columns.map some := by
  rw [← List.forall₂_eq_eq_eq, List.forall₂_map_left_iff, List.forall₂_map_right_iff]
  exact ((positions_eq_ok_iff.mp h).imp fun _ _ => getElem?_of_position?).flip

theorem lt_length_of_mem_positions (h : table.positions columns = .ok positions) {position : Nat}
    (hMem : position ∈ positions) : position < table.columns.length := by
  have hName : table.columnNames[position]? ∈ columns.map some :=
    map_getElem?_of_positions h ▸ List.mem_map_of_mem hMem
  obtain ⟨column, -, hColumn⟩ := List.mem_map.mp hName
  have hLength := (List.getElem?_eq_some_iff.mp hColumn.symm).1
  rwa [columnNames, List.length_map] at hLength

end Table

namespace Database

variable {db : Database}

/-! ### Insertions -/

/-- The insertion goes through. No value is written beside its row, also where positions repeat or
the values are more or fewer than the positions, and no row is refused after those before it. -/
structure GoesThrough (db : Database) (statement : InsertInto) (table : Table)
    (positions : List Nat) : Prop where
  inRange : ∀ values ∈ statement.rows, ∀ count position, positions[count]? = some position →
    position < (table.template.write (positions.take count) values).length
  accepted : ∀ front row back, table.filled positions statement.rows = front ++ row :: back →
    ∃ middle after, db.apply (forM front (insert statement.table)) = (.ok (), middle) ∧
      middle.apply (insert statement.table row) = (.ok (), after)
  stored : db.apply (execute (.insertInto statement)) =
    (.ok statement.rows.length,
      db.put statement.table (table.extend (table.filled positions statement.rows)))

theorem goesThrough {statement : InsertInto} {table : Table} {positions : List Nat}
    (hFound : db.table statement.table = .ok table)
    (hPositions : table.positions statement.columns = .ok positions) :
    db.GoesThrough statement table positions where
  inRange values _ count position hPosition := by
    rw [Row.length_write, Table.length_template]
    exact Table.lt_length_of_mem_positions hPositions (List.mem_of_getElem? hPosition)
  accepted front row back hRows := by
    have hLength : ∀ other ∈ front ++ row :: back, other.length = table.columns.length := by
      rw [← hRows]
      exact fun _ => Table.length_of_mem_filled
    rw [List.forall_mem_append, List.forall_mem_cons] at hLength
    exact ⟨_, _, apply_forM_insert (table_eq_ok_iff.mp hFound) hLength.1,
      apply_insert_of_find? (find?_put_self ..) hLength.2.1⟩
  stored := by
    rw [execute, apply_executeInsert, hFound]
    dsimp only
    rw [hPositions]

/-! ### Failures -/

variable {e : StoreError} {after : Database}

theorem eq_of_apply_createTable_error {name : String} {columns : List Column}
    (h : db.apply (createTable name columns) = (.error e, after)) : after = db := by
  rw [apply_createTable] at h
  split at h
  · cases h
    rfl
  · cases hRepeated : Column.firstRepeated? columns with
    | none =>
      rw [hRepeated] at h
      cases h
    | some column =>
      rw [hRepeated] at h
      cases h
      rfl

theorem eq_of_apply_insert_error {name : String} {row : Row}
    (h : db.apply (insert name row) = (.error e, after)) : after = db := by
  rw [apply_insert] at h
  cases hTable : db.table name with
  | error d =>
    rw [hTable] at h
    cases h
    rfl
  | ok table =>
    rw [hTable] at h
    dsimp only at h
    split at h <;> cases h
    rfl

/-- A failing operation leaves the database as it was. An insertion fails only while its table and
its columns are looked up, before the first of its rows. -/
theorem unchanged_of_error (db : Database) :
    (∀ name columns e after,
      db.apply (createTable name columns) = (.error e, after) → after = db) ∧
    (∀ name row e after, db.apply (insert name row) = (.error e, after) → after = db) ∧
    (∀ statement e after, db.apply (execute statement) = (.error e, after) → after = db) ∧
    ∀ statement : InsertInto,
      (∀ table positions, db.table statement.table = .ok table →
        table.positions statement.columns = .ok positions →
        db.GoesThrough statement table positions) ∧
      ((∃ e, db.apply (execute (.insertInto statement)) = (.error e, db)) ∨
        ∃ table positions, db.table statement.table = .ok table ∧
          table.positions statement.columns = .ok positions) := by
  refine ⟨fun _ _ _ _ => eq_of_apply_createTable_error, fun _ _ _ _ => eq_of_apply_insert_error,
    fun _ _ _ => eq_of_apply_execute_error, fun statement => ⟨fun _ _ => goesThrough, ?_⟩⟩
  rcases apply_execute_cases db (.insertInto statement) with ⟨_, _, -, hDone⟩ | ⟨e, hFailed⟩
  · cases hDone with
    | inserted hFound hPositions => exact .inr ⟨_, _, table_eq_ok_iff.mpr hFound, hPositions⟩
  · exact .inl ⟨e, hFailed⟩

/-- Refusals of each kind, and an insertion by hand that names a column twice. -/
theorem unchanged_of_error_sample :
    let table : Table := ⟨"t", [⟨"a", .int, []⟩, ⟨"b", .int, []⟩], []⟩
    let db := empty.put "t" table
    let twice : InsertInto := ⟨"t", ["b", "b"], [[.number "1"], [.number "2", .null, .null]]⟩
    let elsewhere : InsertInto := ⟨"t", ["a", "c"], [[.number "1", .number "2"]]⟩
    (db.apply (createTable "t" [])).1 = .error (.duplicateTable "t") ∧
      (db.apply (createTable "t" [])).2 = db ∧
      (db.apply (insert "t" [.null])).1 = .error (.arityMismatch "t" 2 1) ∧
      (db.apply (insert "t" [.null])).2 = db ∧
      (db.apply (execute (.insertInto elsewhere))).1 = .error (.unknownColumn "t" "c") ∧
      (db.apply (execute (.insertInto elsewhere))).2 = db ∧
      db.table "t" = .ok table ∧ table.positions twice.columns = .ok [1, 1] ∧
      db.GoesThrough twice table [1, 1] := by
  intro table db twice elsewhere
  obtain ⟨hCreate, hInsert, hExecute, hAll⟩ := unchanged_of_error db
  have hTaken : (db.apply (createTable "t" [])).1 = .error (.duplicateTable "t") := by
    decide +kernel
  have hShort : (db.apply (insert "t" [.null])).1 = .error (.arityMismatch "t" 2 1) := by
    decide +kernel
  have hUnknown :
      (db.apply (execute (.insertInto elsewhere))).1 = .error (.unknownColumn "t" "c") := by
    decide +kernel
  have hFound : db.table "t" = .ok table := by decide +kernel
  have hPositions : table.positions twice.columns = .ok [1, 1] := by decide +kernel
  exact ⟨hTaken, hCreate _ _ _ _ (Prod.ext hTaken rfl), hShort, hInsert _ _ _ _ (Prod.ext hShort rfl),
    hUnknown, hExecute _ _ _ (Prod.ext hUnknown rfl), hFound, hPositions,
    (hAll twice).1 table [1, 1] hFound hPositions⟩

end Database
end SqlStore
