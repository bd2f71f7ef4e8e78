import SqlStore.Statement.Basic
import SqlStore.Token.LexicalClass

/-!
# Well-formed statements

What every statement has that comes from a text: it is regular and not empty, names are identifiers,
every literal is written as a lexeme of its kind, and a FLOAT has a scale only beside a precision.
-/
namespace SqlStore
set_option autoImplicit false

def IsName (name : String) : Prop :=
  Lexeme.IsIdentifier name.toList

instance (name : String) : Decidable (IsName name) :=
  inferInstanceAs (Decidable (Lexeme.IsIdentifier _))

def Value.WellFormed (value : Value) : Prop :=
  match value with
  | number _ => Lexeme.IsNumber value.text.toList
  | string _ => Lexeme.IsString value.text.toList
  | date _ => Lexeme.IsDate value.text.toList
  | boolean _ | null => True

def Operand.WellFormed : Operand → Prop
  | column name => IsName name
  | value v => v.WellFormed

def Condition.WellFormed : Condition → Prop
  | comparison left _ right => left.WellFormed ∧ right.WellFormed
  | and left right | or left right => left.WellFormed ∧ right.WellFormed

def DataType.WellFormed : DataType → Prop
  | float precision scale => scale.isSome → precision.isSome
  | _ => True

def Constraint.WellFormed : Constraint → Prop
  | default value => value.WellFormed
  | check condition => condition.WellFormed
  | _ => True

structure Column.WellFormed (column : Column) : Prop where
  name : IsName column.name
  type : column.type.WellFormed
  constraints : ∀ constraint ∈ column.constraints, constraint.WellFormed

structure CreateTable.WellFormed (statement : CreateTable) : Prop where
  regular : statement.Regular
  table : IsName statement.table
  nonempty : statement.columns ≠ []
  columns : ∀ column ∈ statement.columns, column.WellFormed
  checks : ∀ check ∈ statement.checks, check.WellFormed

structure InsertInto.WellFormed (statement : InsertInto) : Prop where
  regular : statement.Regular
  table : IsName statement.table
  columnsNonempty : statement.columns ≠ []
  columns : ∀ column ∈ statement.columns, IsName column
  rowsNonempty : statement.rows ≠ []
  values : ∀ row ∈ statement.rows, ∀ value ∈ row, value.WellFormed

def Statement.WellFormed : Statement → Prop
  | createTable statement => statement.WellFormed
  | insertInto statement => statement.WellFormed

end SqlStore
