import SqlStore.Database.Basic

/-!
# Executing statements

The values of a row go to the positions of the named columns; a column that is not named gets its
default, or null. A table is created with its columns; its conditions are not kept. The statements
of a script are executed in order up to the first failure, and what was done before it stays done.
-/
namespace SqlStore
set_option autoImplicit false

/-- The positions of columns in a table. The first name that it lacks is an error. -/
def Table.positions (table : Table) (columns : List String) : Except StoreError (List Nat) :=
  columns.mapM fun column =>
    match table.position? column with
    | some position => .ok position
    | none => .error (.unknownColumn table.name column)

/-- Writes values over a row. Of two values for one position the later one stays. -/
def Row.write (row : Row) (positions : List Nat) (values : Row) : Row :=
  (positions.zip values).foldl (fun row entry => row.set entry.1 entry.2) row

namespace Database

def executeInsert (statement : InsertInto) : StoreM Nat := do
  let table ← (← get).table statement.table
  let positions ← table.positions statement.columns
  let rows := statement.rows.map (Row.write table.template positions)
  rows.forM (insert statement.table)
  return rows.length

/-- The result is the number of rows that were inserted. -/
def execute : Statement → StoreM Nat
  | .createTable statement => do
    createTable statement.table statement.columns
    return 0
  | .insertInto statement => executeInsert statement

def executeAll : Script → StoreM Nat
  | [] => return 0
  | statement :: rest => do
    let count ← execute statement
    return count + (← executeAll rest)

/-- Executes a text. If it cannot be read as a script, nothing is executed. -/
def run (sql : String) : StoreM Nat :=
  match Script.ofText sql with
  | .ok script => executeAll script
  | .error cause => throw (.query cause)

end Database
end SqlStore
