import SqlStore.Database.Execute
import SqlStore.Statement.Drawing

/-!
# The log of a run

A run is told as a list of messages: the tokens in the order in which they were found, what was
parsed, and what was done to the database. The story ends where the run fails. It is read off the
results of scanning and parsing and a second look at every execution; nothing else depends on it.
-/
namespace SqlStore
set_option autoImplicit false

inductive LogLevel where
  | trace | debug | info
deriving DecidableEq

def LogLevel.label : LogLevel → String
  | trace => "TRACE"
  | debug => "DEBUG"
  | info => "INFO"

structure LogEntry where
  level : LogLevel
  message : String
deriving DecidableEq

abbrev Log := List LogEntry

def Token.logEntry (token : Token) : LogEntry where
  level := .trace
  message :=
    token.kind.label ++ " " ++ Text.quoted token.lexeme ++ " at " ++ toString token.offset

/-- The end mark counts as a token. -/
def Scan.log (scan : Scan) : Log :=
  scan.tokens.map Token.logEntry ++
    match scan.stop with
    | .ok _ => [⟨.debug, "scanned " ++ toString (scan.tokens.length + 1) ++ " tokens"⟩]
    | .error _ => []

def ParseEvent.logEntry : ParseEvent → LogEntry
  | column c =>
    ⟨.trace, "column " ++ c.name ++ " " ++ c.type.text ++ " " ++
      (Text.Drawing.list (c.constraints.map Constraint.drawing)).line⟩
  | statement keyword table first next =>
    ⟨.debug, "parsed " ++ keyword.spelling ++ " statement for table " ++ table ++ " (tokens " ++
      toString first ++ ".." ++ toString next ++ ")"⟩

def Parser.log (parser : Parser) : Log :=
  parser.events.reverse.map ParseEvent.logEntry

namespace Log

/-- An executed statement that has inserted `count` rows. -/
def executed (count : Nat) : Statement → LogEntry
  | .createTable statement =>
    ⟨.info, "creating table " ++ statement.table ++ " with " ++
      toString statement.columns.length ++ " columns"⟩
  | .insertInto statement =>
    ⟨.debug, "inserted " ++ toString count ++ " rows into " ++ statement.table⟩

def ofExecution (db : Database) : Script → Log
  | [] => []
  | statement :: rest =>
    match db.apply (Database.execute statement) with
    | (.ok count, after) => executed count statement :: ofExecution after rest
    | (.error _, _) => []

def ofTokens (db : Database) (tokens : List Token) : Log :=
  let (result, parser) := (Parser.ofTokens tokens).run Parser.script
  parser.log ++
    match result with
    | .ok script => ofExecution db script
    | .error _ => []

def ofRun (db : Database) (sql : String) : Log :=
  let scan := Scan.ofText sql
  scan.log ++
    match scan.result with
    | .ok tokens => ofTokens db tokens
    | .error _ => []

def ofDrop (db : Database) (name : String) : Log :=
  if (db.find? name).isSome then [⟨.info, "dropped table " ++ name⟩] else []

end Log
end SqlStore
