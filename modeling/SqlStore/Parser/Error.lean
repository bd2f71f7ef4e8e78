import SqlStore.Token.Basic

/-!
# Errors of parsing

What can be wrong with a list of tokens as a statement. Every error has the index of the token that
is to blame, counted from the start of the list.
-/
namespace SqlStore
set_option autoImplicit false

/-- What would have been accepted in place of an unexpected token. -/
inductive Expectation where
  | statementKeyword
  | keyword (keyword : Keyword)
  | tableName
  | columnName
  | dataType
  | size
  | constraint
  | comparator
  | operand
  | literal
  | parenOpen
  | parenClose
  | endOfInput
deriving DecidableEq

def Expectation.text : Expectation → String
  | statementKeyword => "statement keyword"
  | keyword k => k.spelling
  | tableName => "table name"
  | columnName => "column name"
  | dataType => "data type"
  | size => "type size"
  | constraint => "column constraint"
  | comparator => "comparison operator"
  | operand => "column name or literal"
  | literal => "literal value"
  | parenOpen => "'('"
  | parenClose => "')'"
  | endOfInput => "end of input"

inductive ParseFault where
  | unexpectedToken (expected : Expectation) (found : Token)
  | unsupportedStatement (keyword : String)
  | columnCountMismatch (row expected found : Nat)
  | duplicateColumn (column : String)
  | sizesNotAllowed (type : Keyword)
  | invalidSize (type : Keyword) (lexeme : String)
deriving DecidableEq

structure ParseError where
  fault : ParseFault
  index : Nat
deriving DecidableEq

def ParseError.message (error : ParseError) : String :=
  let index := toString error.index
  match error.fault with
  | .unexpectedToken expected found =>
    "expected " ++ expected.text ++ " but found " ++ found.describe ++ " at token " ++ index
  | .unsupportedStatement keyword => "unsupported statement `" ++ keyword ++ "` at token " ++ index
  | .columnCountMismatch row expected found =>
    "row " ++ toString row ++ " has " ++ toString found ++ " values but " ++ toString expected ++
      " columns were named (token " ++ index ++ ")"
  | .duplicateColumn column => "column " ++ column ++ " is named twice (token " ++ index ++ ")"
  | .sizesNotAllowed type =>
    "type " ++ type.spelling ++ " takes no arguments (token " ++ index ++ ")"
  | .invalidSize type lexeme =>
    "invalid argument `" ++ lexeme ++ "` for type " ++ type.spelling ++ " at token " ++ index

end SqlStore
