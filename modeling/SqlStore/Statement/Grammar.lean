import SqlStore.Statement.Basic
import SqlStore.Statement.Literal

/-!
# The grammar of statements

Which lists of tokens are written forms of a statement and its parts. The relations say what may be
written and with what meaning, and not how it is found. That names differ and rows have one width is
no matter of the grammar: `Statement.Regular` says that.
-/
namespace SqlStore.Grammar
set_option autoImplicit false

inductive OperandForm : List Token → Operand → Prop where
  | column {t : Token} (kind : t.kind = .identifier) : OperandForm [t] (.column t.lexeme)
  | value {t : Token} {v : Value} (literal : t.literal? = some v) : OperandForm [t] (.value v)

/-- From the tightest: a comparison or a parenthesis, these joined by AND, and those joined by OR. -/
inductive Level where
  | primary | conjunction | disjunction
deriving DecidableEq

inductive ConditionForm : Level → List Token → Condition → Prop where
  | comparison {ls rs : List Token} {t : Token} {left right : Operand} {op : Comparator}
      (leftForm : OperandForm ls left) (kind : t.kind = .comparator)
      (sign : Comparator.ofText? t.lexeme = some op) (rightForm : OperandForm rs right) :
      ConditionForm .primary (ls ++ t :: rs) (.comparison left op right)
  | parenthesized {ts : List Token} {opening closing : Token} {condition : Condition}
      (isOpening : opening.kind = .parenOpen) (form : ConditionForm .disjunction ts condition)
      (isClosing : closing.kind = .parenClose) :
      ConditionForm .primary (opening :: ts ++ [closing]) condition
  | primary {ts : List Token} {condition : Condition}
      (form : ConditionForm .primary ts condition) : ConditionForm .conjunction ts condition
  | and {ls rs : List Token} {t : Token} {left right : Condition}
      (leftForm : ConditionForm .conjunction ls left) (isAnd : t.isConnective "AND" = true)
      (rightForm : ConditionForm .primary rs right) :
      ConditionForm .conjunction (ls ++ t :: rs) (.and left right)
  | conjunction {ts : List Token} {condition : Condition}
      (form : ConditionForm .conjunction ts condition) : ConditionForm .disjunction ts condition
  | or {ls rs : List Token} {t : Token} {left right : Condition}
      (leftForm : ConditionForm .disjunction ls left) (isOr : t.isConnective "OR" = true)
      (rightForm : ConditionForm .conjunction rs right) :
      ConditionForm .disjunction (ls ++ t :: rs) (.or left right)

inductive SizeForm : Token → Size → Prop where
  | intro {t : Token} {n : Size} (kind : t.kind = .numberLiteral)
      (value : Size.ofText? t.lexeme = some n) : SizeForm t n

inductive LengthForm : List Token → Option Size → Prop where
  | absent : LengthForm [] none
  | sized {opening first closing : Token} {n : Size} (isOpening : opening.kind = .parenOpen)
      (size : SizeForm first n) (isClosing : closing.kind = .parenClose) :
      LengthForm [opening, first, closing] (some n)

inductive PrecisionForm : List Token → Option Size → Option Size → Prop where
  | alone {ts : List Token} {precision : Option Size} (form : LengthForm ts precision) :
      PrecisionForm ts precision none
  | scaled {opening first comma second closing : Token} {n m : Size}
      (isOpening : opening.kind = .parenOpen) (precision : SizeForm first n)
      (isComma : comma.kind = .comma) (scale : SizeForm second m)
      (isClosing : closing.kind = .parenClose) :
      PrecisionForm [opening, first, comma, second, closing] (some n) (some m)

inductive TypeForm : List Token → DataType → Prop where
  | bool {t : Token} (isKeyword : t.isKeyword .bool = true) : TypeForm [t] .bool
  | int {t : Token} (isKeyword : t.isKeyword .int = true) : TypeForm [t] .int
  | date {t : Token} (isKeyword : t.isKeyword .date = true) : TypeForm [t] .date
  | char {t : Token} {ts : List Token} {length : Option Size}
      (isKeyword : t.isKeyword .char = true) (form : LengthForm ts length) :
      TypeForm (t :: ts) (.char length)
  | varchar {t : Token} {ts : List Token} {length : Option Size}
      (isKeyword : t.isKeyword .varchar = true) (form : LengthForm ts length) :
      TypeForm (t :: ts) (.varchar length)
  | float {t : Token} {ts : List Token} {precision scale : Option Size}
      (isKeyword : t.isKeyword .float = true) (form : PrecisionForm ts precision scale) :
      TypeForm (t :: ts) (.float precision scale)

inductive CheckForm : List Token → Condition → Prop where
  | intro {ts : List Token} {check opening closing : Token} {condition : Condition}
      (isCheck : check.isKeyword .check = true) (isOpening : opening.kind = .parenOpen)
      (form : ConditionForm .disjunction ts condition) (isClosing : closing.kind = .parenClose) :
      CheckForm (check :: opening :: ts ++ [closing]) condition

inductive ConstraintForm : List Token → Constraint → Prop where
  | notNull {t : Token} (isKeyword : t.isKeyword .notNull = true) : ConstraintForm [t] .notNull
  | primaryKey {t : Token} (isKeyword : t.isKeyword .primaryKey = true) :
      ConstraintForm [t] .primaryKey
  | unique {t : Token} (isKeyword : t.isKeyword .unique = true) : ConstraintForm [t] .unique
  | default {t l : Token} {v : Value} (isKeyword : t.isKeyword .default = true)
      (literal : l.literal? = some v) : ConstraintForm [t, l] (.default v)
  | check {ts : List Token} {condition : Condition} (form : CheckForm ts condition) :
      ConstraintForm ts (.check condition)

inductive ConstraintsForm : List Token → List Constraint → Prop where
  | nil : ConstraintsForm [] []
  | cons {ts us : List Token} {constraint : Constraint} {constraints : List Constraint}
      (form : ConstraintForm ts constraint) (rest : ConstraintsForm us constraints) :
      ConstraintsForm (ts ++ us) (constraint :: constraints)

inductive ColumnForm : List Token → Column → Prop where
  | intro {name : Token} {ts us : List Token} {type : DataType} {constraints : List Constraint}
      (isName : name.kind = .identifier) (typeForm : TypeForm ts type)
      (constraintsForm : ConstraintsForm us constraints) :
      ColumnForm (name :: ts ++ us) ⟨name.lexeme, type, constraints⟩

/-- Entries of a table after a column that comes first. -/
inductive EntriesForm : List Token → List Column → List Condition → Prop where
  | first {ts : List Token} {column : Column} (form : ColumnForm ts column) :
      EntriesForm ts [column] []
  | column {ts us : List Token} {comma : Token} {columns : List Column} {checks : List Condition}
      {column : Column} (entries : EntriesForm ts columns checks) (isComma : comma.kind = .comma)
      (form : ColumnForm us column) :
      EntriesForm (ts ++ comma :: us) (columns ++ [column]) checks
  | check {ts us : List Token} {comma : Token} {columns : List Column} {checks : List Condition}
      {condition : Condition} (entries : EntriesForm ts columns checks)
      (isComma : comma.kind = .comma) (form : CheckForm us condition) :
      EntriesForm (ts ++ comma :: us) columns (checks ++ [condition])

/-- One or more items with commas between them. -/
inductive ListForm {α : Type} (item : List Token → α → Prop) : List Token → List α → Prop where
  | single {ts : List Token} {a : α} (form : item ts a) : ListForm item ts [a]
  | append {ts us : List Token} {comma : Token} {as : List α} {a : α} (front : ListForm item ts as)
      (isComma : comma.kind = .comma) (form : item us a) :
      ListForm item (ts ++ comma :: us) (as ++ [a])

inductive NameForm : List Token → String → Prop where
  | intro {t : Token} (kind : t.kind = .identifier) : NameForm [t] t.lexeme

inductive LiteralForm : List Token → Value → Prop where
  | intro {t : Token} {v : Value} (literal : t.literal? = some v) : LiteralForm [t] v

inductive RowForm : List Token → Row → Prop where
  | intro {opening closing : Token} {ts : List Token} {row : Row}
      (isOpening : opening.kind = .parenOpen) (values : ListForm LiteralForm ts row)
      (isClosing : closing.kind = .parenClose) : RowForm (opening :: ts ++ [closing]) row

inductive BodyForm : List Token → Statement → Prop where
  | createTable {create table name opening closing : Token} {ts : List Token}
      {columns : List Column} {checks : List Condition} (isCreate : create.isKeyword .create = true)
      (isTable : table.isKeyword .table = true) (isName : name.kind = .identifier)
      (isOpening : opening.kind = .parenOpen) (entries : EntriesForm ts columns checks)
      (isClosing : closing.kind = .parenClose) :
      BodyForm (create :: table :: name :: opening :: ts ++ [closing])
        (.createTable ⟨name.lexeme, columns, checks⟩)
  | insertInto {insert into name opening closing values : Token} {ts us : List Token}
      {columns : List String} {rows : List Row} (isInsert : insert.isKeyword .insert = true)
      (isInto : into.isKeyword .into = true) (isName : name.kind = .identifier)
      (isOpening : opening.kind = .parenOpen) (names : ListForm NameForm ts columns)
      (isClosing : closing.kind = .parenClose) (isValues : values.isKeyword .values = true)
      (rowForms : ListForm RowForm us rows) :
      BodyForm (insert :: into :: name :: opening :: ts ++ closing :: values :: us)
        (.insertInto ⟨name.lexeme, columns, rows⟩)

inductive StatementForm : List Token → Statement → Prop where
  | bare {ts : List Token} {statement : Statement} (body : BodyForm ts statement) :
      StatementForm ts statement
  | terminated {ts : List Token} {terminator : Token} {statement : Statement}
      (body : BodyForm ts statement) (isTerminator : terminator.kind = .terminator) :
      StatementForm (ts ++ [terminator]) statement

end SqlStore.Grammar
