import SqlStore.Statement.Column

/-!
# Statements

The two statements of the language. Statements that come from a text are regular: names of columns
are distinct, and a row has one value for each named column. The types do not ask for that, because a
statement may also be put together by hand.
-/
namespace SqlStore
set_option autoImplicit false

structure CreateTable where
  table : String
  columns : List Column
  checks : List Condition
deriving DecidableEq

structure InsertInto where
  table : String
  columns : List String
  rows : List Row
deriving DecidableEq

inductive Statement where
  | createTable (statement : CreateTable)
  | insertInto (statement : InsertInto)
deriving DecidableEq

namespace CreateTable

def Regular (statement : CreateTable) : Prop :=
  (statement.columns.map Column.name).Nodup

def text (statement : CreateTable) : String :=
  "CREATE TABLE " ++ statement.table ++ " (" ++
    ", ".intercalate (statement.columns.map Column.text ++
      statement.checks.map fun check => (Constraint.check check).text) ++ ")"

end CreateTable

namespace InsertInto

def Regular (statement : InsertInto) : Prop :=
  statement.columns.Nodup ∧ ∀ row ∈ statement.rows, row.length = statement.columns.length

def rowText (row : Row) : String :=
  "(" ++ ", ".intercalate (row.map Value.text) ++ ")"

def text (statement : InsertInto) : String :=
  "INSERT INTO " ++ statement.table ++ " (" ++ ", ".intercalate statement.columns ++ ") VALUES " ++
    ", ".intercalate (statement.rows.map rowText)

end InsertInto

namespace Statement

def table : Statement → String
  | createTable statement => statement.table
  | insertInto statement => statement.table

def Regular : Statement → Prop
  | createTable statement => statement.Regular
  | insertInto statement => statement.Regular

def text : Statement → String
  | createTable statement => statement.text
  | insertInto statement => statement.text

end Statement
end SqlStore
