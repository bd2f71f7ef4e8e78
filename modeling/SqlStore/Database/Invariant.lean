import SqlStore.Database.Lemmas

/-!
# Sound databases

A table is sound if its columns have distinct names and every row has one value for each. A database
is sound if all its tables are and stand under their own names.
-/
namespace SqlStore
set_option autoImplicit false

structure Table.Sound (table : Table) : Prop where
  distinct : table.columnNames.Nodup
  filled : ∀ row ∈ table.rows, row.length = table.columns.length

structure Database.Sound (db : Database) : Prop where
  named : ∀ {name : String} {table : Table}, db.find? name = some table → table.name = name
  tables : ∀ {name : String} {table : Table}, db.find? name = some table → table.Sound

namespace Database

theorem sound_empty : empty.Sound where
  named h := by simp at h
  tables h := by simp at h

theorem Sound.put {db : Database} {name : String} {table : Table} (h : db.Sound)
    (hName : table.name = name) (hTable : table.Sound) : (db.put name table).Sound where
  named ht := by
    rw [find?_put] at ht
    split at ht
    · rename_i hEq
      cases ht
      exact hName.trans hEq
    · exact h.named ht
  tables ht := by
    rw [find?_put] at ht
    split at ht
    · cases ht
      exact hTable
    · exact h.tables ht

theorem Sound.remove {db : Database} (h : db.Sound) (name : String) : (db.remove name).Sound where
  named ht := by
    rw [find?_remove] at ht
    split at ht
    · cases ht
    · exact h.named ht
  tables ht := by
    rw [find?_remove] at ht
    split at ht
    · cases ht
    · exact h.tables ht

end Database
end SqlStore
