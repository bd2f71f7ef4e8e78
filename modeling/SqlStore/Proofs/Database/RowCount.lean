import Mathlib.Algebra.BigOperators.Group.Finset.Basic
import Mathlib.Algebra.GroupWithZero.Nat
import SqlStore.Proofs.Database.Execute

/-!
# Counting rows

The rows of all tables together. Putting a table into a database replaces the rows that stood under
its name, so a statement that succeeds adds as many rows as it says.
-/
namespace SqlStore.Database
set_option autoImplicit false

/-- The number of rows under a name; there are none under a name without a table. -/
def rowCountOf (db : Database) (name : String) : Nat :=
  ((db.find? name).map (·.rows.length)).getD 0

/-- The number of rows of all tables. -/
def rowCount (db : Database) : Nat :=
  (db.tableNames.map db.rowCountOf).sum

theorem rowCountOf_of_find? {db : Database} {name : String} {table : Table}
    (h : db.find? name = some table) : db.rowCountOf name = table.rows.length := by
  rw [rowCountOf, h]
  rfl

theorem rowCountOf_put (db : Database) (name other : String) (table : Table) :
    (db.put name table).rowCountOf other =
      if name = other then table.rows.length else db.rowCountOf other := by
  rw [rowCountOf, find?_put]
  split <;> rfl

theorem nodup_tableNames (db : Database) : db.tableNames.Nodup :=
  db.pairwise_tableNames.imp fun h hEq => by simp [hEq] at h

theorem rowCount_eq_sum (db : Database) :
    db.rowCount = ∑ name ∈ db.tableNames.toFinset, db.rowCountOf name :=
  (List.sum_toFinset _ db.nodup_tableNames).symm

theorem toFinset_tableNames_put (db : Database) (name : String) (table : Table) :
    (db.put name table).tableNames.toFinset = Insert.insert name db.tableNames.toFinset := by
  ext other
  rw [List.mem_toFinset, Finset.mem_insert, List.mem_toFinset, mem_tableNames_iff,
    mem_tableNames_iff, find?_put]
  split
  · rename_i hName
    simp [hName]
  · rename_i hName
    simp [Ne.symm hName]

theorem rowCountOf_of_notMem {db : Database} {name : String}
    (h : name ∉ db.tableNames.toFinset) : db.rowCountOf name = 0 := by
  rw [List.mem_toFinset, mem_tableNames_iff, Option.not_isSome_iff_eq_none] at h
  rw [rowCountOf, h]
  rfl

/-- The rows under one name and all others. -/
theorem rowCount_eq_add (db : Database) (name : String) :
    db.rowCount =
      db.rowCountOf name + ∑ other ∈ db.tableNames.toFinset.erase name, db.rowCountOf other := by
  rw [rowCount_eq_sum, ← Finset.sum_insert_of_eq_zero_if_notMem rowCountOf_of_notMem,
    ← Finset.add_sum_erase _ _ (Finset.mem_insert_self name _), Finset.erase_insert_eq_erase]

theorem rowCount_put (db : Database) (name : String) (table : Table) :
    (db.put name table).rowCount + db.rowCountOf name = db.rowCount + table.rows.length := by
  have hOthers : ∑ other ∈ db.tableNames.toFinset.erase name, (db.put name table).rowCountOf other =
      ∑ other ∈ db.tableNames.toFinset.erase name, db.rowCountOf other := by
    refine Finset.sum_congr rfl fun other hOther => ?_
    rw [rowCountOf_put, if_neg (Finset.ne_of_mem_erase hOther).symm]
  have hPut := (db.put name table).rowCount_eq_add name
  rw [toFinset_tableNames_put, Finset.erase_insert_eq_erase, hOthers, rowCountOf_put,
    if_pos rfl] at hPut
  have hBefore := db.rowCount_eq_add name
  omega

theorem Executed.rowCount {db after : Database} {statement : Statement} {count : Nat}
    (h : db.Executed statement count after) : after.rowCount = db.rowCount + count := by
  cases h with
  | @created statement hFresh hDistinct =>
    have hPut := db.rowCount_put statement.table ⟨statement.table, statement.columns, []⟩
    rw [rowCountOf, hFresh] at hPut
    exact hPut
  | @inserted statement table positions hFound hPositions =>
    have hPut := db.rowCount_put statement.table
      (table.extend (table.filled positions statement.rows))
    rw [rowCountOf_of_find? hFound, Table.extend_rows, List.length_append,
      Table.length_filled] at hPut
    omega

end SqlStore.Database
