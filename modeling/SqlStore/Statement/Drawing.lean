import SqlStore.Statement.Basic
import SqlStore.Text.Drawing

/-!
# Drawings of statements

How each part of a statement is drawn: the names of its variants and fields, texts in quotation
marks, sizes as numbers.
-/
namespace SqlStore
set_option autoImplicit false

open Text (Drawing)

def Value.drawing : Value → Drawing
  | number digits => .apply "Number" [.quoted digits]
  | string content => .apply "String" [.quoted content]
  | boolean value => .apply "Boolean" [.atom (if value then "true" else "false")]
  | date content => .apply "Date" [.quoted content]
  | null => .atom "Null"

def Operand.drawing : Operand → Drawing
  | column name => .apply "Column" [.quoted name]
  | value v => .apply "Value" [v.drawing]

def Comparator.drawing (op : Comparator) : Drawing :=
  .atom <| match op with
    | eq => "Eq"
    | ne => "NotEq"
    | lt => "Lt"
    | le => "LtEq"
    | gt => "Gt"
    | ge => "GtEq"

def Condition.drawing : Condition → Drawing
  | comparison left op right =>
    .record "Comparison"
      [.field "left" left.drawing, .field "op" op.drawing, .field "right" right.drawing]
  | and left right => .apply "And" [left.drawing, right.drawing]
  | or left right => .apply "Or" [left.drawing, right.drawing]

def Size.drawing (size : Option Size) : Drawing :=
  .option (fun n => .number n.toNat) size

def DataType.drawing : DataType → Drawing
  | bool => .atom "Bool"
  | int => .atom "Int"
  | float precision scale =>
    .record "Float"
      [.field "precision" (Size.drawing precision),
       .field "scale" (Size.drawing scale)]
  | date => .atom "Date"
  | char length => .record "Char" [.field "length" (Size.drawing length)]
  | varchar length => .record "Varchar" [.field "length" (Size.drawing length)]

def Constraint.drawing : Constraint → Drawing
  | notNull => .atom "NotNull"
  | primaryKey => .atom "PrimaryKey"
  | unique => .atom "Unique"
  | default value => .apply "Default" [value.drawing]
  | check condition => .apply "Check" [condition.drawing]

def Column.drawing (column : Column) : Drawing :=
  .record "ColumnDefinition"
    [.field "column_name" (.quoted column.name),
     .field "data_type" column.type.drawing,
     .field "constraints" (.list (column.constraints.map Constraint.drawing))]

def CreateTable.drawing (statement : CreateTable) : Drawing :=
  .record "CreateTableStatement"
    [.field "table_name" (.quoted statement.table),
     .field "columns" (.list (statement.columns.map Column.drawing)),
     .field "checks" (.list (statement.checks.map Condition.drawing))]

def InsertInto.drawing (statement : InsertInto) : Drawing :=
  .record "InsertIntoStatement"
    [.field "table_name" (.quoted statement.table),
     .field "column_names" (.list (statement.columns.map Drawing.quoted)),
     .field "values" (.list (statement.rows.map fun row => .list (row.map Value.drawing)))]

def Statement.drawing : Statement → Drawing
  | createTable statement => .apply "CreateTable" [statement.drawing]
  | insertInto statement => .apply "InsertInto" [statement.drawing]

end SqlStore
