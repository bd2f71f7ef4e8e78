import SqlStore.Proofs.Database.Contents
import SqlStore.Proofs.Database.Run
import SqlStore.Proofs.Query.WellFormed

/-!
# Why statements are refused

A database can refuse a table that names a column twice, and a row that is too short or too long.
Neither can come from a text: the parser lets no such table through, and the rows of an insertion are
made to fit. What is left are names, of a table that is there already, or of a table or a column that
is not there.
-/
namespace SqlStore
set_option autoImplicit false

/-! ### Positions -/

theorem Table.position?_eq_none_iff {table : Table} {column : String} :
    table.position? column = none ↔ column ∉ table.columnNames := by
  rw [position?, List.idxOf?_eq_none_iff]

/-- The first name that the table lacks is to blame. -/
theorem Table.positions_eq_error_iff {table : Table} {columns : List String} {e : StoreError} :
    table.positions columns = .error e ↔
      ∃ column, columns.find? (· ∉ table.columnNames) = some column ∧
        e = .unknownColumn table.name column := by
  rw [positions]
  induction columns with
  | nil => simp [pure, Except.pure]
  | cons column rest ih =>
    rw [List.mapM_cons]
    cases hPosition : table.position? column with
    | none =>
      have hLacks := position?_eq_none_iff.mp hPosition
      simp [bind, Except.bind, hLacks, eq_comm]
    | some position =>
      have hHas : column ∈ table.columnNames := by
        by_contra hLacks
        rw [position?_eq_none_iff.mpr hLacks] at hPosition
        cases hPosition
      rw [List.find?_cons_of_neg (by simpa using hHas), ← ih]
      dsimp only [bind, Except.bind]
      split
      · rename_i hRest
        rw [hRest]
      · rename_i hRest
        rw [hRest]
        simp [pure, Except.pure]

namespace Database

/-! ### Statements -/

/-- The database refuses the statement with this error. -/
inductive Refuses (db : Database) : Statement → StoreError → Prop
  | duplicateTable {statement : CreateTable} {table : Table}
      (hTaken : db.table statement.table = .ok table) :
      Refuses db (.createTable statement) (.duplicateTable statement.table)
  | unknownTable {statement : InsertInto} (hMissing : ∀ table, db.table statement.table ≠ .ok table) :
      Refuses db (.insertInto statement) (.unknownTable statement.table)
  | unknownColumn {statement : InsertInto} {table : Table} {column : String}
      (hFound : db.table statement.table = .ok table)
      (hFirst : statement.columns.find? (· ∉ table.columnNames) = some column) :
      Refuses db (.insertInto statement) (.unknownColumn statement.table column)

variable {db : Database} {e : StoreError}

theorem refuses_createTable_iff {statement : CreateTable} (hRegular : statement.Regular) :
    (db.apply (execute (.createTable statement))).1 = .error e ↔
      db.Refuses (.createTable statement) e := by
  rw [execute, apply_bind, apply_createTable]
  by_cases hTaken : (db.find? statement.table).isSome
  · rw [if_pos hTaken]
    obtain ⟨table, hTable⟩ := Option.isSome_iff_exists.mp hTaken
    constructor
    · rintro ⟨⟩
      exact .duplicateTable (table_eq_ok_iff.mpr hTable)
    · rintro ⟨_⟩
      rfl
  · rw [if_neg hTaken, Column.firstRepeated?_eq_none_iff.mpr hRegular]
    constructor
    · rintro ⟨⟩
    · rintro ⟨hFound⟩
      rw [table_eq_ok_iff.mp hFound] at hTaken
      exact absurd rfl hTaken

theorem refuses_insertInto_iff (hSound : db.Sound) {statement : InsertInto} :
    (db.apply (execute (.insertInto statement))).1 = .error e ↔
      db.Refuses (.insertInto statement) e := by
  rw [execute, apply_executeInsert]
  cases hTable : db.table statement.table with
  | error d =>
    have hMissing : ∀ table, db.table statement.table ≠ .ok table := by simp [hTable]
    have hUnknown : d = .unknownTable statement.table := (table_eq_error_iff.mp hTable).1
    constructor
    · rintro ⟨⟩
      exact hUnknown ▸ .unknownTable hMissing
    · rintro (_ | _ | ⟨hFound⟩)
      · rw [hUnknown]
      · exact absurd hFound (hMissing _)
  | ok table =>
    have hName : table.name = statement.table := hSound.named (table_eq_ok_iff.mp hTable)
    dsimp only
    cases hPositions : table.positions statement.columns with
    | error d =>
      obtain ⟨column, hFirst, rfl⟩ := Table.positions_eq_error_iff.mp hPositions
      rw [hName]
      constructor
      · rintro ⟨⟩
        exact .unknownColumn hTable hFirst
      · rintro (_ | hMissing | ⟨hFound, hFirst'⟩)
        · exact absurd hTable (hMissing table)
        · cases hTable.symm.trans hFound
          cases hFirst.symm.trans hFirst'
          rfl
    | ok positions =>
      constructor
      · rintro ⟨⟩
      · rintro (_ | hMissing | ⟨hFound, hFirst⟩)
        · exact absurd hTable (hMissing table)
        · cases hTable.symm.trans hFound
          cases hPositions.symm.trans (Table.positions_eq_error_iff.mpr ⟨_, hFirst, rfl⟩)

theorem refuses_iff (hSound : db.Sound) {statement : Statement} (hRegular : statement.Regular) :
    (db.apply (execute statement)).1 = .error e ↔ db.Refuses statement e := by
  cases statement with
  | createTable statement => exact refuses_createTable_iff hRegular
  | insertInto statement => exact refuses_insertInto_iff hSound

/-! ### Texts -/

theorem regular_of_script {sql : String} {script : Script} (h : Script.ofText sql = .ok script)
    {statement : Statement} (hMem : statement ∈ script) : statement.Regular := by
  obtain ⟨tokens, -, hRead⟩ := readTokens_eq_ok_iff.mp h
  obtain ⟨_, -, -, hRegular⟩ :=
    Parser.regularForm_of_mem (Parser.scriptForm_of_ofTokens hRead) hMem
  exact hRegular

theorem regular_of_text {sql : String} {statement : Statement}
    (h : Statement.ofText sql = .ok statement ∨
      ∃ script, Script.ofText sql = .ok script ∧ statement ∈ script) : statement.Regular := by
  rcases h with h | ⟨script, h, hMem⟩
  · obtain ⟨tokens, -, hRead⟩ := readTokens_eq_ok_iff.mp h
    exact (Parser.form_of_ofTokens hRead).2
  · exact regular_of_script h hMem

theorem Completes.sound {after : Database} {script : Script} (h : db.Completes script after)
    (hSound : db.Sound) : after.Sound := by
  induction h with
  | nil => exact hSound
  | cons first _ ih => exact ih ((executed_of_apply_execute first).sound hSound)

/-- A text fails to run because it cannot be read, or because one of its statements is refused by the
database that the statements before it have led to. -/
theorem exists_refuses_of_run (hSound : db.Sound) {sql : String}
    (h : (db.apply (run sql)).1 = .error e) :
    (∃ cause, Script.ofText sql = .error cause ∧ e = .query cause) ∨
      ∃ front statement back reached, Script.ofText sql = .ok (front ++ statement :: back) ∧
        db.Completes front reached ∧ reached.Refuses statement e := by
  cases hText : Script.ofText sql with
  | error cause =>
    rw [run, hText] at h
    cases h
    exact .inl ⟨cause, rfl, rfl⟩
  | ok script =>
    rw [run_of_ofText hText] at h
    rcases completes_or_fails db script with ⟨after, hAll⟩ | ⟨d, reached, hFails⟩
    · obtain ⟨count, hRun, -⟩ := hAll.apply_executeAll
      rw [hRun] at h
      cases h
    · rw [hFails.apply_executeAll] at h
      cases h
      obtain ⟨front, statement, back, rfl, hFront, hLast⟩ := hFails
      have hRegular := regular_of_script hText (by simp : statement ∈ _)
      exact .inr ⟨front, statement, back, reached, rfl, hFront,
        (refuses_iff (hFront.sound hSound) hRegular).mp hLast⟩

theorem refused_after_empty (history : List Operation) (sql : String) :
    let db := empty.after history
    (∀ e, (db.apply (run sql)).1 = .error e →
      (∀ table expected found, e ≠ .arityMismatch table expected found) ∧
        ∀ table column, e ≠ .duplicateColumn table column) ∧
    ∀ statement, (Statement.ofText sql = .ok statement ∨
        ∃ script, Script.ofText sql = .ok script ∧ statement ∈ script) →
      ∀ e, (db.apply (execute statement)).1 = .error e ↔ db.Refuses statement e := by
  intro db
  have hSound : db.Sound := sound_empty.after history
  refine ⟨fun e hRun => ?_, fun statement hText e => refuses_iff hSound (regular_of_text hText)⟩
  rcases exists_refuses_of_run hSound hRun with ⟨cause, -, rfl⟩ | ⟨_, _, _, _, -, -, hRefuses⟩
  · exact ⟨nofun, nofun⟩
  · cases hRefuses <;> exact ⟨nofun, nofun⟩

/-- A row for a table that is there and lacks one of the columns. -/
theorem refused_after_empty_insert :
    let db := empty.after [.run "CREATE TABLE t (a INT)"]
    let sql := "INSERT INTO t (a, b) VALUES (1, 2)"
    let statement : Statement := .insertInto ⟨"t", ["a", "b"], [[.number "1", .number "2"]]⟩
    let e : StoreError := .unknownColumn "t" "b"
    (db.apply (run sql)).1 = .error e ∧ Script.ofText sql = .ok [statement] ∧
      ((∀ table expected found, e ≠ .arityMismatch table expected found) ∧
        ∀ table column, e ≠ .duplicateColumn table column) ∧
      db.Refuses statement e := by
  intro db sql statement e
  have hRun : (db.apply (run sql)).1 = .error e := by decide +kernel
  have hScript : Script.ofText sql = .ok [statement] := by decide +kernel
  have hRefused : (db.apply (execute statement)).1 = .error e := by decide +kernel
  obtain ⟨hErrors, hRefuses⟩ := refused_after_empty [.run "CREATE TABLE t (a INT)"] sql
  exact ⟨hRun, hScript, hErrors e hRun,
    (hRefuses statement (.inr ⟨_, hScript, List.mem_singleton_self _⟩) e).mp hRefused⟩

end Database
end SqlStore
