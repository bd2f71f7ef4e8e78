import SqlStore.Proofs.Database.Soundness

/-!
# Contents as a history

What a history has done is a list of deeds: creations, rows, insertions and drops, each of them
because an operation or a statement of a script succeeded. What fails is no deed. The contents of a
table can be read off this list alone: they are the columns of the creation that came after the last
drop, and the rows that came after that creation, in their order.
-/
namespace SqlStore
set_option autoImplicit false

inductive Deed where
  | created (name : String) (columns : List Column)
  | appended (name : String) (row : Row)
  | inserted (statement : InsertInto)
  | dropped (name : String)
deriving DecidableEq

def Statement.deed : Statement → Deed
  | .createTable statement => .created statement.table statement.columns
  | .insertInto statement => .inserted statement

/-- The rows that an insertion makes for a table with these columns. -/
def InsertInto.rowsFor (statement : InsertInto) (columns : List Column) : List Row :=
  let table : Table := ⟨statement.table, columns, []⟩
  match table.positions statement.columns with
  | .ok positions => table.filled positions statement.rows
  | .error _ => []

namespace Deed

def table : Deed → String
  | created name _ | appended name _ | dropped name => name
  | inserted statement => statement.table

/-- What the deed adds to the rows of a table with these columns. -/
def rowsIn (name : String) (columns : List Column) (deed : Deed) : List Row :=
  if deed.table = name then
    match deed with
    | appended _ row => [row]
    | inserted statement => statement.rowsFor columns
    | created .. | dropped _ => []
  else []

/-- The deed of an operation, unless it failed. -/
def unlessError {α : Type} (deed : Deed) : Except StoreError α → List Deed
  | .ok _ => [deed]
  | .error _ => []

end Deed

/-- The statements of a script up to the first one that fails. -/
def Script.deeds (db : Database) : Script → List Deed
  | [] => []
  | statement :: rest =>
    match db.apply (Database.execute statement) with
    | (.ok _, after) => statement.deed :: Script.deeds after rest
    | (.error _, _) => []

def Operation.deeds (db : Database) : Operation → List Deed
  | createTable name columns =>
    (Deed.created name columns).unlessError (db.apply (Database.createTable name columns)).1
  | insert name row => (Deed.appended name row).unlessError (db.apply (Database.insert name row)).1
  | drop name => [.dropped name]
  | execute statement => statement.deed.unlessError (db.apply (Database.execute statement)).1
  | run sql =>
    match Script.ofText sql with
    | .ok script => script.deeds db
    | .error _ => []

namespace Database

def deeds (db : Database) : List Operation → List Deed
  | [] => []
  | operation :: rest => operation.deeds db ++ (db.step operation).deeds rest

/-- What each deed finds and what it leaves behind. -/
inductive Done (db : Database) : Deed → Database → Prop
  | created {name : String} {columns : List Column} (hFresh : db.find? name = none) :
      Done db (.created name columns) (db.put name ⟨name, columns, []⟩)
  | extended {deed : Deed} {table : Table} (hFound : db.find? deed.table = some table)
      (hCreated : ∀ name columns, deed ≠ .created name columns)
      (hDropped : ∀ name, deed ≠ .dropped name) :
      Done db deed (db.put deed.table (table.extend (deed.rowsIn deed.table table.columns)))
  | dropped {name : String} : Done db (.dropped name) (db.remove name)

inductive Leads (db : Database) : List Deed → Database → Prop
  | nil : Leads db [] db
  | snoc {middle after : Database} {deeds : List Deed} {deed : Deed}
      (front : Leads db deeds middle) (last : middle.Done deed after) :
      Leads db (deeds ++ [deed]) after

theorem Done.leads {db after : Database} {deed : Deed} (h : db.Done deed after) :
    db.Leads [deed] after :=
  .snoc .nil h

theorem Leads.trans {db middle after : Database} {deeds more : List Deed}
    (h : db.Leads deeds middle) (hMore : middle.Leads more after) :
    db.Leads (deeds ++ more) after := by
  induction hMore with
  | nil => rwa [List.append_nil]
  | snoc _ last ih =>
    rw [← List.append_assoc]
    exact .snoc ih last

/-! ### Operations as deeds -/

theorem rowsFor_of_positions {statement : InsertInto} {table : Table} {positions : List Nat}
    (hName : table.name = statement.table)
    (h : table.positions statement.columns = .ok positions) :
    statement.rowsFor table.columns = table.filled positions statement.rows := by
  have hPositions : Table.positions ⟨statement.table, table.columns, []⟩ statement.columns =
      .ok positions := by
    rw [← hName]
    exact h
  rw [InsertInto.rowsFor, hPositions]
  rfl

theorem Executed.done {db after : Database} {statement : Statement} {count : Nat} (h : db.Sound)
    (hExecuted : db.Executed statement count after) : db.Done statement.deed after := by
  cases hExecuted with
  | created hFresh hDistinct => exact .created hFresh
  | @inserted statement table positions hFound hPositions =>
    have hDone : db.Done (.inserted statement) _ := .extended hFound nofun nofun
    rwa [Deed.rowsIn, if_pos rfl, rowsFor_of_positions (h.named hFound) hPositions] at hDone

theorem leads_createTable (db : Database) (name : String) (columns : List Column) :
    db.Leads ((Deed.created name columns).unlessError (db.apply (createTable name columns)).1)
      (db.apply (createTable name columns)).2 := by
  rw [apply_createTable]
  split
  · exact .nil
  · rename_i hFresh
    cases Column.firstRepeated? columns with
    | some column => exact .nil
    | none => exact (Done.created (by simpa using hFresh)).leads

theorem leads_insert (db : Database) (name : String) (row : Row) :
    db.Leads ((Deed.appended name row).unlessError (db.apply (insert name row)).1)
      (db.apply (insert name row)).2 := by
  rw [apply_insert]
  cases hTable : db.table name with
  | error e => exact .nil
  | ok table =>
    have hDone : db.Done (.appended name row) _ :=
      .extended (table_eq_ok_iff.mp hTable) nofun nofun
    rw [Deed.rowsIn, if_pos rfl] at hDone
    dsimp only
    split
    · exact hDone.leads
    · exact .nil

theorem leads_execute {db : Database} (h : db.Sound) (statement : Statement) :
    db.Leads (statement.deed.unlessError (db.apply (execute statement)).1)
      (db.apply (execute statement)).2 := by
  rcases apply_execute_cases db statement with ⟨count, after, hApply, hExecuted⟩ | ⟨e, hApply⟩ <;>
    rw [hApply]
  · exact (hExecuted.done h).leads
  · exact .nil

theorem leads_script {db : Database} (h : db.Sound) (script : Script) :
    db.Leads (script.deeds db) (db.apply (executeAll script)).2 := by
  induction script generalizing db with
  | nil => exact .nil
  | cons statement rest ih =>
    rw [Script.deeds, executeAll]
    rcases apply_execute_cases db statement with ⟨count, after, hApply, hExecuted⟩ | ⟨e, hApply⟩
    · rw [apply_bind_ok db hApply, apply_bind_pure_snd, hApply]
      exact (hExecuted.done h).leads.trans (ih (hExecuted.sound h))
    · rw [apply_bind_error db hApply, hApply]
      exact .nil

theorem leads_step {db : Database} (h : db.Sound) (operation : Operation) :
    db.Leads (operation.deeds db) (db.step operation) := by
  cases operation <;> rw [Database.step, Operation.perform, apply_bind_pure_snd, Operation.deeds]
  case createTable name columns => exact leads_createTable db name columns
  case insert name row => exact leads_insert db name row
  case drop name => exact Done.dropped.leads
  case execute statement => exact leads_execute h statement
  case run sql =>
    rw [run]
    cases Script.ofText sql with
    | ok script => exact leads_script h script
    | error cause => exact .nil

theorem leads_after {db : Database} (h : db.Sound) (history : List Operation) :
    db.Leads (db.deeds history) (db.after history) := by
  induction history generalizing db with
  | nil => exact .nil
  | cons operation rest ih => exact (leads_step h operation).trans (ih (h.step operation))

/-! ### Tables as records of deeds -/

/-- The table was created with these columns and not dropped while the later deeds were done. -/
def Founded (name : String) (deeds : List Deed) (columns : List Column) (later : List Deed) :
    Prop :=
  (∃ front, deeds = front ++ .created name columns :: later) ∧ .dropped name ∉ later

/-- The table that the deeds leave behind under the name. -/
def Recorded (name : String) (deeds : List Deed) (table : Table) : Prop :=
  ∃ columns later, Founded name deeds columns later ∧
    table = ⟨name, columns, later.flatMap (Deed.rowsIn name columns)⟩

variable {name : String} {deeds later : List Deed} {deed : Deed} {columns : List Column}

theorem not_founded_nil : ¬ Founded name [] columns later := by
  rintro ⟨⟨front, h⟩, -⟩
  simp at h

theorem founded_snoc_iff :
    Founded name (deeds ++ [deed]) columns later ↔
      deed = .created name columns ∧ later = [] ∨
        ∃ before, later = before ++ [deed] ∧ deed ≠ .dropped name ∧
          Founded name deeds columns before := by
  constructor
  · rintro ⟨⟨front, h⟩, hDropped⟩
    rcases List.eq_nil_or_concat later with rfl | ⟨before, last, rfl⟩
    · exact .inl ⟨(List.append_inj' h rfl).2 |> List.singleton_inj.mp, rfl⟩
    · rw [List.concat_eq_append, List.mem_append, List.mem_singleton, not_or] at hDropped
      rw [List.concat_eq_append, ← List.cons_append, ← List.append_assoc] at h
      obtain ⟨rfl, hLast⟩ := List.append_inj' h rfl
      obtain rfl := List.singleton_inj.mp hLast
      exact .inr ⟨before, List.concat_eq_append, Ne.symm hDropped.2, ⟨front, rfl⟩, hDropped.1⟩
  · rintro (⟨rfl, rfl⟩ | ⟨before, rfl, hDropped, ⟨front, rfl⟩, hBefore⟩)
    · exact ⟨⟨deeds, rfl⟩, by simp⟩
    · exact ⟨⟨front, by simp⟩, by simp [hBefore, hDropped.symm]⟩

theorem recorded_snoc_iff {table : Table} :
    Recorded name (deeds ++ [deed]) table ↔
      (∃ columns, deed = .created name columns ∧ table = ⟨name, columns, []⟩) ∨
        deed ≠ .dropped name ∧ ∃ before, Recorded name deeds before ∧
          table = before.extend (deed.rowsIn name before.columns) := by
  constructor
  · rintro ⟨columns, later, h, rfl⟩
    rcases founded_snoc_iff.mp h with ⟨rfl, rfl⟩ | ⟨before, rfl, hDropped, hBefore⟩
    · exact .inl ⟨columns, rfl, rfl⟩
    · refine .inr ⟨hDropped, _, ⟨columns, before, hBefore, rfl⟩, ?_⟩
      simp [Table.extend]
  · rintro (⟨columns, rfl, rfl⟩ | ⟨hDropped, _, ⟨columns, before, hBefore, rfl⟩, rfl⟩)
    · exact ⟨columns, [], founded_snoc_iff.mpr (.inl ⟨rfl, rfl⟩), rfl⟩
    · refine ⟨columns, before ++ [deed],
        founded_snoc_iff.mpr (.inr ⟨before, rfl, hDropped, hBefore⟩), ?_⟩
      simp [Table.extend]

theorem Deed.rowsIn_of_ne (h : deed.table ≠ name) (columns : List Column) :
    deed.rowsIn name columns = [] :=
  if_neg h

theorem recorded_snoc_iff_of_ne {table : Table} (h : deed.table ≠ name) :
    Recorded name (deeds ++ [deed]) table ↔ Recorded name deeds table := by
  have hDropped : deed ≠ .dropped name := fun hEq => h (by rw [hEq]; rfl)
  rw [recorded_snoc_iff]
  constructor
  · rintro (⟨columns, rfl, -⟩ | ⟨-, before, hBefore, rfl⟩)
    · exact absurd rfl h
    · rwa [Deed.rowsIn_of_ne h, Table.extend_nil]
  · intro hTable
    exact .inr ⟨hDropped, table, hTable, by rw [Deed.rowsIn_of_ne h, Table.extend_nil]⟩

theorem Done.find?_of_ne {db after : Database} (h : db.Done deed after)
    (hName : deed.table ≠ name) :
    after.find? name = db.find? name := by
  cases h with
  | created hFresh => exact (find?_put ..).trans (if_neg hName)
  | extended hFound hCreated hDropped => exact (find?_put ..).trans (if_neg hName)
  | dropped => exact (find?_remove ..).trans (if_neg hName)

/-- A deed changes the table as it changes the record of the table. -/
theorem Done.find?_eq_some_iff {db after : Database} (h : db.Done deed after)
    (hBefore : ∀ table, db.find? deed.table = some table ↔ Recorded deed.table deeds table)
    (table : Table) :
    after.find? deed.table = some table ↔ Recorded deed.table (deeds ++ [deed]) table := by
  rw [recorded_snoc_iff]
  cases h with
  | @created name columns hFresh =>
    change (db.put name _).find? name = _ ↔ _
    rw [find?_put_self]
    constructor
    · rintro ⟨⟩
      exact .inl ⟨columns, rfl, rfl⟩
    · rintro (⟨_, ⟨⟩, rfl⟩ | ⟨-, before, hRecorded, -⟩)
      · rfl
      · cases hFresh.symm.trans ((hBefore before).mpr hRecorded)
  | @extended _ found hFound hCreated hDropped =>
    rw [find?_put_self]
    constructor
    · rintro ⟨⟩
      exact .inr ⟨hDropped _, found, (hBefore found).mp hFound, rfl⟩
    · rintro (⟨columns, hDeed, -⟩ | ⟨-, before, hRecorded, rfl⟩)
      · exact absurd hDeed (hCreated _ _)
      · cases hFound.symm.trans ((hBefore before).mpr hRecorded)
        rfl
  | @dropped name =>
    change (db.remove name).find? name = _ ↔ _
    rw [find?_remove, if_pos rfl]
    constructor
    · rintro ⟨⟩
    · rintro (⟨_, ⟨⟩, -⟩ | ⟨hDeed, -⟩)
      exact absurd rfl hDeed

theorem Leads.find?_eq_some_iff {db : Database} (h : empty.Leads deeds db) (name : String)
    (table : Table) : db.find? name = some table ↔ Recorded name deeds table := by
  induction h generalizing table with
  | nil =>
    rw [find?_empty]
    exact ⟨nofun, fun ⟨_, _, hFounded, _⟩ => absurd hFounded not_founded_nil⟩
  | @snoc middle after deeds deed front last ih =>
    by_cases hName : deed.table = name
    · subst hName
      exact last.find?_eq_some_iff ih table
    · rw [recorded_snoc_iff_of_ne hName, ← ih, last.find?_of_ne hName]

theorem table_eq_error_iff {db : Database} {name : String} {e : StoreError} :
    db.table name = .error e ↔ e = .unknownTable name ∧ db.find? name = none := by
  rw [Database.table]
  cases db.find? name <;> simp [eq_comm]

theorem select_eq_ok_iff {db : Database} {name : String} {rows : List Row} :
    db.select name = .ok rows ↔ ∃ table, db.find? name = some table ∧ rows = table.rows := by
  rw [Database.select, Database.table]
  cases db.find? name <;> simp [Except.map, eq_comm]

theorem select_eq_error_iff {db : Database} {name : String} {e : StoreError} :
    db.select name = .error e ↔ e = .unknownTable name ∧ db.find? name = none := by
  rw [Database.select, ← table_eq_error_iff]
  cases db.table name <;> simp [Except.map]

end Database
end SqlStore
