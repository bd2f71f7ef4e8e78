import SqlStore.Proofs.Database.Execute
import SqlStore.Proofs.Text.ByteOrder

/-!
# Soundness along a history

No operation leads from a sound database to one that is not sound, whatever it is given and whether
it succeeds or fails. So every database that a history leads to is sound, and with it goes that its
names are listed once each in ascending order of their bytes.
-/
namespace SqlStore.Database
set_option autoImplicit false

theorem Sound.extend {db : Database} {name : String} {table : Table} {rows : List Row} (h : db.Sound)
    (hFind : db.find? name = some table)
    (hRows : ∀ row ∈ rows, row.length = table.columns.length) :
    (db.put name (table.extend rows)).Sound :=
  h.put ((table.extend_name rows).trans (h.named hFind)) ((h.tables hFind).extend hRows)

theorem Sound.createTable {db : Database} (h : db.Sound) (name : String) (columns : List Column) :
    (db.apply (createTable name columns)).2.Sound := by
  rw [apply_createTable]
  split
  · exact h
  · cases hRepeated : Column.firstRepeated? columns with
    | some column => exact h
    | none => exact h.put rfl (Table.sound_mk (Column.firstRepeated?_eq_none_iff.mp hRepeated))

theorem Sound.insert {db : Database} (h : db.Sound) (name : String) (row : Row) :
    (db.apply (insert name row)).2.Sound := by
  rw [apply_insert]
  cases hTable : db.table name with
  | error e => exact h
  | ok table =>
    dsimp only
    split
    · rename_i hLength
      have hRows : ∀ other ∈ [row], other.length = table.columns.length := by simpa using hLength
      exact h.extend (table_eq_ok_iff.mp hTable) hRows
    · exact h

theorem Executed.sound {db after : Database} {statement : Statement} {count : Nat}
    (hExecuted : db.Executed statement count after) (h : db.Sound) : after.Sound := by
  cases hExecuted with
  | created hFresh hDistinct => exact h.put rfl (Table.sound_mk hDistinct)
  | inserted hFound hPositions =>
    exact h.extend hFound fun _ => Table.length_of_mem_filled

theorem Sound.execute {db : Database} (h : db.Sound) (statement : Statement) :
    (db.apply (execute statement)).2.Sound := by
  rcases apply_execute_cases db statement with ⟨_, _, hApply, hExecuted⟩ | ⟨e, hApply⟩ <;>
    rw [hApply]
  · exact hExecuted.sound h
  · exact h

theorem Sound.executeAll {db : Database} (h : db.Sound) (script : Script) :
    (db.apply (executeAll script)).2.Sound := by
  induction script generalizing db with
  | nil => exact h
  | cons statement rest ih =>
    have hFirst := h.execute statement
    rw [Database.executeAll, apply_bind]
    rcases hApply : db.apply (Database.execute statement) with ⟨_ | count, after⟩ <;>
      rw [hApply] at hFirst
    · exact hFirst
    · have hRest := ih hFirst
      dsimp only
      rw [apply_bind]
      rcases hAll : after.apply (Database.executeAll rest) with ⟨_ | others, last⟩ <;>
        rwa [hAll] at hRest

theorem Sound.run {db : Database} (h : db.Sound) (sql : String) : (db.apply (run sql)).2.Sound := by
  rw [Database.run]
  split
  · exact h.executeAll _
  · exact h

theorem apply_bind_pure_snd {α β : Type} (db : Database) (operation : StoreM α) (f : α → β) :
    (db.apply (operation >>= fun a => pure (f a))).2 = (db.apply operation).2 := by
  rw [apply_bind]
  rcases db.apply operation with ⟨_ | _, after⟩ <;> rfl

theorem Sound.step {db : Database} (h : db.Sound) (operation : Operation) :
    (db.step operation).Sound := by
  cases operation <;> rw [Database.step, Operation.perform, apply_bind_pure_snd]
  case createTable name columns => exact h.createTable name columns
  case insert name row => exact h.insert name row
  case drop name => exact h.remove name
  case execute statement => exact h.execute statement
  case run sql => exact h.run sql

theorem Sound.after {db : Database} (h : db.Sound) (history : List Operation) :
    (db.after history).Sound := by
  induction history generalizing db with
  | nil => exact h
  | cons operation rest ih => exact ih (h.step operation)

theorem mem_tableNames_iff_table (db : Database) (name : String) :
    name ∈ db.tableNames ↔ ∃ table, db.table name = .ok table := by
  rw [mem_tableNames_iff, Option.isSome_iff_exists]
  simp only [table_eq_ok_iff]

theorem pairwise_bytes_tableNames (db : Database) :
    db.tableNames.Pairwise fun a b => Text.bytes a < Text.bytes b :=
  db.pairwise_tableNames.imp Text.bytes_lt_bytes_of_compare

theorem sound_after_empty (history : List Operation) :
    (empty.after history).Sound ∧
      (∀ name, name ∈ (empty.after history).tableNames ↔
        ∃ table, (empty.after history).table name = .ok table) ∧
      (empty.after history).tableNames.Pairwise fun a b => Text.bytes a < Text.bytes b :=
  ⟨sound_empty.after history, mem_tableNames_iff_table _, pairwise_bytes_tableNames _⟩

end SqlStore.Database
