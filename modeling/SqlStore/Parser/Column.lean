import SqlStore.Parser.Condition

/-!
# Parsing columns

The name of a column, its type with sizes, and its constraints. Sizes are read to the end of the
parentheses: a type that takes none refuses the parenthesis, and a size that is no whole number
below 2³² is an error rather than dropped.
-/
namespace SqlStore.Parser
set_option autoImplicit false

def size (type : DataType) : ParseM Size := do
  let index ← index
  let token ← consume .numberLiteral .size
  match Size.ofText? token.lexeme with
  | some n => return n
  | none => fail (.invalidSize type.keyword token.lexeme) index

def secondSize (type : DataType) : ParseM (Option Size) := do
  if type.maxSizes < 2 then
    return none
  else if ← accept .comma then
    return some (← size type)
  else
    return none

def sizes (type : DataType) : ParseM DataType :=
  parenthesized do
    let first ← size type
    let second ← secondSize type
    return type.sized first second

def dataType : ParseM DataType := do
  let start ← index
  let token ← consume .keyword .dataType
  match (Keyword.ofText? token.lexeme).bind DataType.ofKeyword? with
  | none => fail (.unexpectedToken .dataType token) start
  | some type =>
    if ← check .parenOpen then
      if type.maxSizes = 0 then
        fail (.sizesNotAllowed type.keyword) (← index)
      else
        sizes type
    else
      return type

def constraint : ParseM Constraint := do
  let index ← index
  let token ← peek
  advance
  match Keyword.ofText? token.lexeme with
  | some .notNull => return .notNull
  | some .primaryKey => return .primaryKey
  | some .unique => return .unique
  | some .default => return .default (← literal)
  | some .check => return .check (← parenthesized condition)
  | _ => fail (.unexpectedToken .constraint token) index

def constraints : ParseM (List Constraint) :=
  repeatWhile (check .keyword) (fun read => return read ++ [← constraint]) []

def column : ParseM Column := do
  let name ← consume .identifier .columnName
  let type ← dataType
  let constraints ← constraints
  let column : Column := ⟨name.lexeme, type, constraints⟩
  record (.column column)
  return column

end SqlStore.Parser
