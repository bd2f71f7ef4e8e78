import SqlStore.Parser.Error
import SqlStore.Statement.Basic

/-!
# Parsers

A parser stands somewhere in a list of tokens and looks at one token at a time. It never steps back,
and an error leaves it where it was found. `position` counts the tokens passed, `rest` holds the
tokens ahead up to the first end mark, which is `stop`.

Loops run at most once for every token ahead. This bounds nothing that could happen otherwise,
because each round passes a token: when the bound is used up, no token is left for another round.
-/
namespace SqlStore
set_option autoImplicit false

/-- What a parser has read: a column, or a statement from the token `first` up to the token `next`,
which is not part of it. -/
inductive ParseEvent where
  | column (column : Column)
  | statement (keyword : Keyword) (table : String) (first next : Nat)
deriving DecidableEq

structure Parser where
  position : Nat
  rest : List Token
  stop : Token
  /-- The latest event comes first. -/
  events : List ParseEvent
deriving DecidableEq

abbrev ParseM := ExceptT ParseError (StateM Parser)

namespace Parser

/-- The end of the last token, for lists that end without an end mark. -/
def endOffset (tokens : List Token) : Nat :=
  match tokens.getLast? with
  | some token => token.offset + token.lexeme.utf8ByteSize
  | none => 0

def isEnd (token : Token) : Bool :=
  token.kind == .endOfInput

def ofTokens (tokens : List Token) : Parser where
  position := 0
  rest := tokens.takeWhile (!isEnd ·)
  stop := (tokens.find? isEnd).getD (Token.endAt (endOffset tokens))
  events := []

def current (parser : Parser) : Token :=
  parser.rest.headD parser.stop

def atEnd (parser : Parser) : Bool :=
  parser.rest.isEmpty

def next (parser : Parser) : Parser :=
  match parser.rest with
  | [] => parser
  | _ :: rest => { parser with position := parser.position + 1, rest := rest }

def run {α : Type} (reader : ParseM α) (parser : Parser) : Except ParseError α × Parser :=
  (ExceptT.run reader).run parser

/-! ### Looking and stepping -/

def index : ParseM Nat := do
  return (← get).position

def peek : ParseM Token := do
  return (← get).current

def advance : ParseM Unit :=
  modify next

def record (event : ParseEvent) : ParseM Unit :=
  modify fun parser => { parser with events := event :: parser.events }

def fail {α : Type} (fault : ParseFault) (index : Nat) : ParseM α :=
  throw ⟨fault, index⟩

def unexpected {α : Type} (expected : Expectation) : ParseM α := do
  let parser ← get
  fail (.unexpectedToken expected parser.current) parser.position

def check (kind : TokenKind) : ParseM Bool := do
  return (← peek).kind == kind

def checkKeyword (keyword : Keyword) : ParseM Bool := do
  return (← peek).isKeyword keyword

/-- Steps over the current token if the test, which only looks at it, says yes. -/
def stepIf (test : ParseM Bool) : ParseM Bool := do
  if ← test then
    advance
    return true
  else
    return false

def accept (kind : TokenKind) : ParseM Bool :=
  stepIf (check kind)

def consume (kind : TokenKind) (expected : Expectation) : ParseM Token := do
  let token ← peek
  if token.kind = kind then
    advance
    return token
  else
    unexpected expected

def consumeKeyword (keyword : Keyword) : ParseM Unit := do
  if ← checkKeyword keyword then advance else unexpected (.keyword keyword)

/-! ### Loops -/

def iterate {α : Type} (more : ParseM Bool) (step : α → ParseM α) : Nat → α → ParseM α
  | 0, a => return a
  | bound + 1, a => do
    if ← more then
      let a ← step a
      iterate more step bound a
    else
      return a

def repeatWhile {α : Type} (more : ParseM Bool) (step : α → ParseM α) (a : α) : ParseM α := do
  iterate more step (← get).rest.length a

/-- One or more steps with a comma before each but the first. -/
def separated {α : Type} (step : α → ParseM α) (a : α) : ParseM α := do
  let a ← step a
  repeatWhile (accept .comma) step a

def parenthesized {α : Type} (inner : ParseM α) : ParseM α := do
  let _ ← consume .parenOpen .parenOpen
  let a ← inner
  let _ ← consume .parenClose .parenClose
  return a

end Parser
end SqlStore
