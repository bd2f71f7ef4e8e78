import SqlStore.Keyword
import SqlStore.Text.Drawing
import SqlStore.Text.Letters

/-!
# Tokens

A token is a classified piece of a text together with its position, counted in bytes. The kind
`endOfInput` marks the end of a text and has an empty piece. A token is only data: nothing makes its
lexeme fit its kind, except that scanning produces such tokens.
-/
namespace SqlStore
set_option autoImplicit false

inductive TokenKind where
  | keyword | identifier
  | stringLiteral | numberLiteral | booleanLiteral | dateLiteral | nullLiteral
  | comparator | connective
  | comma | parenOpen | parenClose | terminator
  | endOfInput
deriving DecidableEq

namespace TokenKind

def label : TokenKind → String
  | keyword => "KEYWORD"
  | identifier => "IDENTIFIER"
  | stringLiteral => "STRING_LITERAL"
  | numberLiteral => "NUMBER_LITERAL"
  | booleanLiteral => "BOOLEAN_LITERAL"
  | dateLiteral => "DATE_LITERAL"
  | nullLiteral => "NULL_LITERAL"
  | comparator => "COMP_OPERATOR"
  | connective => "LOG_OPERATOR"
  | comma => "COMMA"
  | parenOpen => "PARENTHESIS_OPEN"
  | parenClose => "PARENTHESIS_CLOSE"
  | terminator => "TERMINAL"
  | endOfInput => "EOF"

def all : List TokenKind :=
  [keyword, identifier, stringLiteral, numberLiteral, booleanLiteral, dateLiteral, nullLiteral,
   comparator, connective, comma, parenOpen, parenClose, terminator, endOfInput]

theorem mem_all (kind : TokenKind) : kind ∈ all := by
  cases kind <;> decide

def drawing (kind : TokenKind) : Text.Drawing :=
  .atom <| match kind with
    | keyword => "Keyword"
    | identifier => "Identifier"
    | stringLiteral => "StringLiteral"
    | numberLiteral => "NumberLiteral"
    | booleanLiteral => "BooleanLiteral"
    | dateLiteral => "DateLiteral"
    | nullLiteral => "NullLiteral"
    | comparator => "CompOperator"
    | connective => "LogOperator"
    | comma => "Comma"
    | parenOpen => "ParenthesisOpen"
    | parenClose => "ParenthesisClose"
    | terminator => "Terminal"
    | endOfInput => "EOF"

end TokenKind

structure Token where
  kind : TokenKind
  lexeme : String
  offset : Nat
deriving DecidableEq

namespace Token

def endAt (offset : Nat) : Token :=
  ⟨.endOfInput, "", offset⟩

/-- Takes the quotes off a text that has one at each end. -/
def unquote (text : List Char) : List Char :=
  match text with
  | '\'' :: body => if body.getLast? = some '\'' then body.dropLast else text
  | _ => text

theorem unquote_quoted (body : List Char) : unquote ('\'' :: (body ++ ['\''])) = body := by
  simp [unquote]

def unquoted (token : Token) : String :=
  match token.kind with
  | .stringLiteral | .dateLiteral => String.ofList (unquote token.lexeme.toList)
  | _ => token.lexeme

def isKeyword (token : Token) (keyword : Keyword) : Bool :=
  token.kind == .keyword && Keyword.ofText? token.lexeme == some keyword

def isConnective (token : Token) (word : String) : Bool :=
  token.kind == .connective && Text.sameLetters token.lexeme word

def describe (token : Token) : String :=
  match token.kind with
  | .endOfInput => "end of input"
  | kind => kind.label ++ " `" ++ token.lexeme ++ "`"

def drawing (token : Token) : Text.Drawing :=
  .record "Token"
    [.field "kind" token.kind.drawing,
     .field "lexeme" (.quoted token.lexeme),
     .field "offset" (.number token.offset)]

end Token
end SqlStore
