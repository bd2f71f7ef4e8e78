import SqlStore.Proofs.Database.Atomicity
import SqlStore.Proofs.Database.Refusal

/-!
# Cells of inserted rows

A value of an insertion goes to the column whose name stands at the same place in the list of names,
wherever the table has that column. A column that is not named gets its default, or null. So only
the pairs of names and values count and not their order: an insertion whose names and values are
rearranged alike does the same.
-/
namespace SqlStore
set_option autoImplicit false

/-- The value of a column that is not named: that of its first DEFAULT, or null without one. -/
inductive Column.Fills (column : Column) : Value → Prop
  | default {front back : List Constraint} {value : Value}
      (constraints : column.constraints = front ++ .default value :: back)
      (first : ∀ other, .default other ∉ front) : Fills column value
  | null (none : ∀ value, .default value ∉ column.constraints) : Fills column .null

/-- The value of a column in the row that is made of these values under these names. -/
inductive Cell (names : List String) (values : Row) (column : Column) : Value → Prop
  | named {k : Nat} {v : Value} (name : names[k]? = some column.name)
      (value : values[k]? = some v) : Cell names values column v
  | omitted {v : Value} (unnamed : column.name ∉ names) (fills : column.Fills v) :
      Cell names values column v

/-- The items in another order, which is given by their places. -/
def rearranged {α : Type} (order : List Nat) (items : List α) : List α :=
  order.filterMap (items[·]?)

def InsertInto.rearranged (statement : InsertInto) (order : List Nat) : InsertInto where
  table := statement.table
  columns := SqlStore.rearranged order statement.columns
  rows := statement.rows.map (SqlStore.rearranged order)

/-! ### Values of a column -/

theorem Column.fills_iff {column : Column} {v : Value} :
    column.Fills v ↔ v = column.default?.getD .null := by
  have hDefault : ∀ {constraint : Constraint} {v : Value},
      constraint.default? = some v ↔ constraint = .default v := by
    intro constraint v
    cases constraint <;> simp [Constraint.default?]
  have hNone : ∀ {constraints : List Constraint},
      (∀ constraint ∈ constraints, constraint.default? = none) ↔
        ∀ v, .default v ∉ constraints := by
    intro constraints
    constructor
    · intro h v hMem
      cases h _ hMem
    · intro h constraint hMem
      rw [Option.eq_none_iff_forall_ne_some]
      intro v hv
      exact h v (hDefault.mp hv ▸ hMem)
  constructor
  · rintro (⟨hSplit, hFirst⟩ | hAbsent)
    · have hFound : column.default? = some v :=
        List.findSome?_eq_some_iff.mpr ⟨_, _, _, hSplit, rfl, hNone.mpr hFirst⟩
      rw [hFound, Option.getD_some]
    · rw [Column.default?, List.findSome?_eq_none_iff.mpr (hNone.mpr hAbsent), Option.getD_none]
  · rintro rfl
    cases hFound : column.default? with
    | none => exact .null (hNone.mp (List.findSome?_eq_none_iff.mp hFound))
    | some v =>
      obtain ⟨front, constraint, back, hSplit, hFirst, hFront⟩ :=
        List.findSome?_eq_some_iff.mp hFound
      rw [hDefault.mp hFirst] at hSplit
      exact .default hSplit (hNone.mp hFront)

/-- A column gets one value only, because no name stands at two places. -/
theorem Cell.unique {names : List String} {values : Row} {column : Column} {v w : Value}
    (hNodup : names.Nodup) (h : Cell names values column v) (h' : Cell names values column w) :
    v = w := by
  cases h with
  | named name value =>
    cases h' with
    | named name' value' =>
      have hLength := (List.getElem?_eq_some_iff.mp name).1
      obtain rfl := (List.getElem?_inj hLength hNodup).mp (name.trans name'.symm)
      exact Option.some_inj.mp (value.symm.trans value')
    | omitted unnamed _ => exact absurd (List.mem_of_getElem? name) unnamed
  | omitted unnamed fills =>
    cases h' with
    | named name _ => exact absurd (List.mem_of_getElem? name) unnamed
    | omitted _ fills' => rw [Column.fills_iff.mp fills, Column.fills_iff.mp fills']

/-! ### Writing values -/

namespace Row

variable {row values : Row} {positions : List Nat} {position : Nat}

theorem getElem?_write_of_notMem (h : position ∉ positions) :
    (row.write positions values)[position]? = row[position]? := by
  induction positions generalizing row values with
  | nil => rfl
  | cons first others ih =>
    rw [List.mem_cons, not_or] at h
    cases values with
    | nil => rfl
    | cons value values =>
      have hWrite : row.write (first :: others) (value :: values) =
          Row.write (row.set first value) others values := rfl
      rw [hWrite, ih h.2, List.getElem?_set_ne (Ne.symm h.1)]

theorem getElem?_write_of_mem (hNodup : positions.Nodup) {k : Nat} {v : Value}
    (hPosition : positions[k]? = some position) (hValue : values[k]? = some v)
    (hLength : position < row.length) :
    (row.write positions values)[position]? = some v := by
  induction positions generalizing row values k with
  | nil => cases hPosition
  | cons first others ih =>
    obtain ⟨hFirst, hOthers⟩ := List.nodup_cons.mp hNodup
    cases values with
    | nil => cases hValue
    | cons value values =>
      have hWrite : row.write (first :: others) (value :: values) =
          Row.write (row.set first value) others values := rfl
      rw [hWrite]
      cases k with
      | zero =>
        cases hPosition
        cases hValue
        rw [getElem?_write_of_notMem hFirst, List.getElem?_set_self hLength]
      | succ k => exact ih hOthers hPosition hValue (by rwa [List.length_set])

end Row

namespace Table

variable {table : Table} {names : List String} {positions : List Nat} {values : Row}

theorem cells_write (hSound : table.Sound) (hNodup : names.Nodup)
    (hPositions : table.positions names = .ok positions) (hLength : values.length = names.length) :
    List.Forall₂ (Cell names values) table.columns (table.template.write positions values) := by
  have hMap := map_getElem?_of_positions hPositions
  have hDistinct : positions.Nodup := by
    refine List.Nodup.of_map (table.columnNames[·]?) ?_
    rw [hMap]
    exact hNodup.map (Option.some_injective _)
  refine List.forall₂_iff_get.mpr ⟨by simp, fun i hi hi' => ?_⟩
  have hColumn : table.columnNames[i]? = some table.columns[i].name := by
    rw [columnNames, List.getElem?_map, List.getElem?_eq_getElem hi, Option.map_some]
  have hRow := List.getElem?_eq_getElem hi'
  rw [List.get_eq_getElem, List.get_eq_getElem]
  by_cases hNamed : table.columns[i].name ∈ names
  · obtain ⟨k, hName⟩ := List.mem_iff_getElem?.mp hNamed
    have hPosition : positions[k]? = some i := by
      have hAt := congrArg (·[k]?) hMap
      simp only [List.getElem?_map, hName, Option.map_some] at hAt
      obtain ⟨position, hPosition, hHere⟩ := Option.map_eq_some_iff.mp hAt
      have hBound := (List.getElem?_eq_some_iff.mp hHere).1
      rwa [(List.getElem?_inj hBound hSound.distinct).mp (hHere.trans hColumn.symm)] at hPosition
    have hk : k < values.length := by
      rw [hLength]
      exact (List.getElem?_eq_some_iff.mp hName).1
    have hValue := List.getElem?_eq_getElem hk
    have hWritten : (table.template.write positions values)[i]? = some values[k] :=
      Row.getElem?_write_of_mem hDistinct hPosition hValue (by simpa using hi)
    rw [← Option.some_inj.mp (hWritten.symm.trans hRow)]
    exact .named hName hValue
  · have hOther : i ∉ positions := by
      intro hMem
      have hName : table.columnNames[i]? ∈ names.map some := hMap ▸ List.mem_map_of_mem hMem
      rw [hColumn] at hName
      exact hNamed (by simpa using hName)
    have hWritten : (table.template.write positions values)[i]? =
        some (table.columns[i].default?.getD .null) := by
      rw [Row.getElem?_write_of_notMem hOther, template, List.getElem?_map,
        List.getElem?_eq_getElem hi, Option.map_some]
    rw [← Option.some_inj.mp (hWritten.symm.trans hRow)]
    exact .omitted hNamed (Column.fills_iff.mpr rfl)

end Table

/-! ### Rearranging -/

section Rearranged

variable {α β : Type} {order : List Nat}

theorem rearranged_range (k : Nat) (items : List α) :
    rearranged (List.range k) items = items.take k := by
  induction k with
  | zero => rfl
  | succ k ih =>
    rw [rearranged] at ih
    rw [List.take_add_one, rearranged, List.range_succ, List.filterMap_append, ih]
    cases hItem : items[k]? <;> simp [hItem]

theorem perm_rearranged {items : List α} (h : order.Perm (List.range items.length)) :
    (rearranged order items).Perm items := by
  have hAll : rearranged (List.range items.length) items = items := by
    rw [rearranged_range, List.take_length]
  exact (h.filterMap _).trans (.of_eq hAll)

theorem zip_rearranged {as : List α} {bs : List β} (h : as.length = bs.length) (order : List Nat) :
    (rearranged order as).zip (rearranged order bs) = rearranged order (as.zip bs) := by
  induction order with
  | nil => rfl
  | cons k order ih =>
    simp only [rearranged, List.filterMap_cons] at ih ⊢
    by_cases hk : k < as.length
    · have hk' : k < bs.length := h ▸ hk
      simp [hk, hk', ih]
    · have hk' : ¬ k < bs.length := h ▸ hk
      simp [hk, hk', ih]

end Rearranged

section

variable {names : List String} {values : Row} {order : List Nat}

theorem Cell.of_rearranged {column : Column} {v : Value}
    (hOrder : order.Perm (List.range names.length)) (hLength : values.length = names.length)
    (h : Cell (rearranged order names) (rearranged order values) column v) :
    Cell names values column v := by
  cases h with
  | named name value =>
    have hPair := List.mem_of_getElem?
      (List.getElem?_zip_eq_some (z := (column.name, v)) |>.mpr ⟨name, value⟩)
    have hPairs : order.Perm (List.range (names.zip values).length) := by
      rwa [List.length_zip, hLength, Nat.min_self]
    rw [zip_rearranged hLength.symm, (perm_rearranged hPairs).mem_iff] at hPair
    obtain ⟨k, hk⟩ := List.mem_iff_getElem?.mp hPair
    obtain ⟨hName, hValue⟩ := List.getElem?_zip_eq_some.mp hk
    exact .named hName hValue
  | omitted unnamed fills =>
    exact .omitted (mt (perm_rearranged hOrder).mem_iff.mpr unnamed) fills

variable {table : Table} {positions positions' : List Nat}

theorem write_rearranged (hSound : table.Sound) (hNodup : names.Nodup)
    (hPositions : table.positions names = .ok positions) (hLength : values.length = names.length)
    (hOrder : order.Perm (List.range names.length))
    (hPositions' : table.positions (rearranged order names) = .ok positions') :
    table.template.write positions' (rearranged order values) =
      table.template.write positions values := by
  have hNames := perm_rearranged hOrder
  have hValues := perm_rearranged (hLength ▸ hOrder)
  have hLength' : (rearranged order values).length = (rearranged order names).length := by
    rw [hNames.length_eq, hValues.length_eq, hLength]
  have hCells := Table.cells_write hSound (hNames.nodup_iff.mpr hNodup) hPositions' hLength'
  have hUnique : Relator.RightUnique (Cell names values) := fun _ _ _ => Cell.unique hNodup
  exact List.right_unique_forall₂' hUnique (hCells.imp fun _ _ => Cell.of_rearranged hOrder hLength)
    (Table.cells_write hSound hNodup hPositions hLength)

end

theorem Table.exists_positions {table : Table} {names : List String}
    (h : ∀ name ∈ names, name ∈ table.columnNames) :
    ∃ positions, table.positions names = .ok positions := by
  cases hPositions : table.positions names with
  | ok positions => exact ⟨positions, rfl⟩
  | error e =>
    obtain ⟨column, hFirst, -⟩ := positions_eq_error_iff.mp hPositions
    have hLacks := List.find?_some hFirst
    exact absurd (h column (List.mem_of_find?_eq_some hFirst)) (by simpa using hLacks)

namespace Database

/-- An insertion whose table and columns are there adds a row for each of its rows, made of the cells
of all columns, and leaves everything else as it was. -/
theorem cells_of_insertInto (history : List Operation) {statement : InsertInto} {table : Table}
    (hFound : (empty.after history).table statement.table = .ok table)
    (hNamed : ∀ name ∈ statement.columns, name ∈ table.columnNames)
    (hRegular : statement.Regular) :
    let db := empty.after history
    ∃ rows after,
      db.apply (execute (.insertInto statement)) = (.ok statement.rows.length, after) ∧
      List.Forall₂ (fun values row =>
        List.Forall₂ (Cell statement.columns values) table.columns row) statement.rows rows ∧
      after.table statement.table = .ok ⟨table.name, table.columns, table.rows ++ rows⟩ ∧
      (∀ other, other ≠ statement.table → after.table other = db.table other) ∧
      ∀ order, order.Perm (List.range statement.columns.length) →
        db.apply (execute (.insertInto (statement.rearranged order))) =
          (.ok statement.rows.length, after) := by
  intro db
  obtain ⟨hNodup, hWidth⟩ := hRegular
  have hSound : table.Sound :=
    (sound_empty.after history).tables (table_eq_ok_iff.mp hFound)
  obtain ⟨positions, hPositions⟩ := Table.exists_positions hNamed
  refine ⟨table.filled positions statement.rows, _, (goesThrough hFound hPositions).stored,
    ?_, ?_, fun other hOther => ?_, fun order hOrder => ?_⟩
  · rw [Table.filled, List.forall₂_map_right_iff, List.forall₂_same]
    exact fun values hRow => Table.cells_write hSound hNodup hPositions (hWidth values hRow)
  · exact table_eq_ok_iff.mpr (find?_put_self ..)
  · rw [Database.table, Database.table, find?_put, if_neg hOther.symm]
  · have hNames := perm_rearranged hOrder
    have hNamed' : ∀ name ∈ rearranged order statement.columns, name ∈ table.columnNames :=
      fun name hName => hNamed name (hNames.mem_iff.mp hName)
    obtain ⟨positions', hPositions'⟩ := Table.exists_positions hNamed'
    have hRows : table.filled positions' (statement.rearranged order).rows =
        table.filled positions statement.rows := by
      rw [Table.filled, Table.filled, InsertInto.rearranged, List.map_map]
      exact List.map_congr_left fun values hRow =>
        write_rearranged hSound hNodup hPositions (hWidth values hRow) hOrder hPositions'
    have hGoes : db.GoesThrough (statement.rearranged order) table positions' :=
      goesThrough hFound hPositions'
    have hStored := hGoes.stored
    rw [hRows] at hStored
    rw [hStored, InsertInto.rearranged, List.length_map]

/-- Two of three columns, named in another order than that of the table and then in a third one. -/
theorem cells_of_insertInto_sample :
    let sql := "CREATE TABLE t (a INT DEFAULT 7 DEFAULT 8, b INT, c INT)"
    let db := empty.after [.run sql]
    let table : Table :=
      ⟨"t", [⟨"a", .int, [.default (.number "7"), .default (.number "8")]⟩, ⟨"b", .int, []⟩,
        ⟨"c", .int, []⟩], []⟩
    let statement : InsertInto :=
      ⟨"t", ["c", "a"], [[.number "1", .null], [.number "2", .number "3"]]⟩
    let alike : InsertInto := ⟨"t", ["a", "c"], [[.null, .number "1"], [.number "3", .number "2"]]⟩
    db.table "t" = .ok table ∧ statement.Regular ∧
      ∃ rows after,
        db.apply (execute (.insertInto statement)) = (.ok 2, after) ∧
        List.Forall₂ (fun values row =>
          List.Forall₂ (Cell ["c", "a"] values) table.columns row) statement.rows rows ∧
        after.table "t" = .ok ⟨"t", table.columns, rows⟩ ∧
        (∀ other, other ≠ "t" → after.table other = db.table other) ∧
        db.apply (execute (.insertInto alike)) = (.ok 2, after) := by
  intro sql db table statement alike
  have hFound : db.table statement.table = .ok table := by decide +kernel
  have hNamed : ∀ name ∈ statement.columns, name ∈ table.columnNames := by decide
  have hRegular : statement.Regular := by unfold InsertInto.Regular; decide
  obtain ⟨rows, after, hApply, hCells, hAfter, hOthers, hOrder⟩ :=
    cells_of_insertInto [.run sql] hFound hNamed hRegular
  exact ⟨hFound, hRegular, rows, after, hApply, hCells, hAfter, hOthers, hOrder [1, 0] (by decide)⟩

end Database
end SqlStore
