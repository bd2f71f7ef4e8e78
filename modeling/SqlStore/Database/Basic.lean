import Std.Data.ExtTreeMap
import SqlStore.Query

/-!
# Databases

A database holds tables under their names, and a table holds rows in the order in which they were
inserted. Nothing but the shape is enforced: the names of the columns of a table are distinct and a
row has one value for each column. An operation that fails says why and leaves the database as it
found it.
-/
namespace SqlStore
set_option autoImplicit false

structure Table where
  name : String
  columns : List Column
  rows : List Row
deriving DecidableEq

namespace Table

def columnNames (table : Table) : List String :=
  table.columns.map Column.name

def position? (table : Table) (column : String) : Option Nat :=
  table.columnNames.idxOf? column

/-- The row that takes no value from a statement. -/
def template (table : Table) : Row :=
  table.columns.map fun column => column.default?.getD .null

end Table

inductive StoreError where
  | unknownTable (table : String)
  | duplicateTable (table : String)
  | duplicateColumn (table column : String)
  | unknownColumn (table column : String)
  | arityMismatch (table : String) (expected found : Nat)
  | query (cause : QueryError)
deriving DecidableEq

def StoreError.message : StoreError → String
  | unknownTable table => "table " ++ table ++ " does not exist"
  | duplicateTable table => "table " ++ table ++ " already exists"
  | duplicateColumn table column => "table " ++ table ++ " defines column " ++ column ++ " twice"
  | unknownColumn table column => "table " ++ table ++ " has no column " ++ column
  | arityMismatch table expected found =>
    "table " ++ table ++ " has " ++ toString expected ++ " columns but the row has " ++
      toString found ++ " values"
  | query cause => cause.message

structure Database where
  tables : Std.ExtTreeMap String Table

abbrev StoreM := ExceptT StoreError (StateM Database)

namespace Database

def empty : Database :=
  ⟨∅⟩

def apply {α : Type} (operation : StoreM α) (db : Database) : Except StoreError α × Database :=
  (ExceptT.run operation).run db

def find? (db : Database) (name : String) : Option Table :=
  db.tables[name]?

def put (db : Database) (name : String) (table : Table) : Database :=
  ⟨db.tables.insert name table⟩

def remove (db : Database) (name : String) : Database :=
  ⟨db.tables.erase name⟩

/-- The names in ascending order of their code points. -/
def tableNames (db : Database) : List String :=
  db.tables.keys

def table (db : Database) (name : String) : Except StoreError Table :=
  match db.find? name with
  | some table => .ok table
  | none => .error (.unknownTable name)

def select (db : Database) (name : String) : Except StoreError (List Row) :=
  (db.table name).map Table.rows

def createTable (name : String) (columns : List Column) : StoreM Unit := do
  if ((← get).find? name).isSome then
    throw (.duplicateTable name)
  else
    match Column.firstRepeated? columns with
    | some column => throw (.duplicateColumn name column.name)
    | none => modify (·.put name ⟨name, columns, []⟩)

def insert (name : String) (row : Row) : StoreM Unit := do
  let table ← (← get).table name
  if row.length = table.columns.length then
    modify (·.put name { table with rows := table.rows ++ [row] })
  else
    throw (.arityMismatch table.name table.columns.length row.length)

/-- Takes a table out; a table that is not there is no error. -/
def drop (name : String) : StoreM (Option Table) := do
  let db ← get
  set (db.remove name)
  return db.find? name

/-! ### The view by name -/

theorem ext_find? {a b : Database} (h : ∀ name, a.find? name = b.find? name) : a = b := by
  cases a
  cases b
  congr 1
  exact Std.ExtTreeMap.ext_getElem? fun name => h name

@[simp] theorem find?_empty (name : String) : empty.find? name = none := by
  simp [find?, empty]

theorem find?_put (db : Database) (name other : String) (table : Table) :
    (db.put name table).find? other = if name = other then some table else db.find? other := by
  simp [find?, put, Std.ExtTreeMap.getElem?_insert]

theorem find?_remove (db : Database) (name other : String) :
    (db.remove name).find? other = if name = other then none else db.find? other := by
  simp [find?, remove, Std.ExtTreeMap.getElem?_erase]

theorem mem_tableNames_iff {db : Database} {name : String} :
    name ∈ db.tableNames ↔ (db.find? name).isSome = true := by
  rw [tableNames, Std.ExtTreeMap.mem_keys, find?, Std.ExtTreeMap.isSome_getElem?_iff_mem]

theorem pairwise_tableNames (db : Database) :
    db.tableNames.Pairwise fun a b => compare a b = .lt :=
  Std.ExtTreeMap.ordered_keys

end Database
end SqlStore
