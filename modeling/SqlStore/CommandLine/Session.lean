import SqlStore.CommandLine.Arguments
import SqlStore.CommandLine.Caret
import SqlStore.Database.Execute
import SqlStore.Statement.Drawing

/-!
# Sessions

A session executes its queries in order on one database and then prints the tables that are asked
for. It collects what it prints and stops at the first failure, which it reports together with the
cause.
-/
namespace SqlStore.CommandLine
set_option autoImplicit false

/-- Why a session ends early. -/
structure Report where
  message : String
  cause : Option String
deriving DecidableEq

def Report.text (report : Report) : String :=
  "Error: " ++ report.message ++ "\n" ++
    match report.cause with
    | some cause => "\nCaused by:\n    " ++ cause ++ "\n"
    | none => ""

structure Session where
  database : Database
  output : String
  diagnostics : String

abbrev SessionM := ExceptT Report (StateM Session)

namespace Session

def start : Session :=
  ⟨.empty, "", ""⟩

def say (line : String) : SessionM Unit :=
  modify fun session => { session with output := session.output ++ line ++ "\n" }

def complain (line : String) : SessionM Unit :=
  modify fun session => { session with diagnostics := session.diagnostics ++ line ++ "\n" }

def stop {α : Type} (message : String) (cause : Option String) : SessionM α :=
  throw ⟨message, cause⟩

def padRight (width : Nat) (text : String) : String :=
  text ++ String.ofList (List.replicate (width - text.length) ' ')

def tokenLine (token : Token) : String :=
  padRight 18 token.kind.label ++ " " ++ Text.quoted token.lexeme

def rowLine (row : Row) : String :=
  " | ".intercalate (row.map Value.text)

def executeStatement (options : Options) (statement : Statement) : SessionM Unit := do
  if options.showStatements then
    say statement.drawing.blockText
  let (result, database) := (← get).database.apply (Database.execute statement)
  modify fun session => { session with database := database }
  match result, statement with
  | .error cause, _ => stop ("execute statement on table " ++ statement.table) cause.message
  | .ok count, .insertInto _ =>
    say ("inserted " ++ toString count ++ " rows into " ++ statement.table)
  | .ok _, .createTable _ => return ()

def executeQuery (options : Options) (query : String) : SessionM Unit := do
  match tokenize query with
  | .error cause =>
    (caret query cause.offset).forM complain
    stop (QueryError.lex cause).message none
  | .ok tokens =>
    if options.showTokens then
      tokens.forM fun token => say (tokenLine token)
    match Script.ofTokens tokens with
    | .error cause =>
      if let some token := tokens[cause.index]? then
        (caret query token.offset).forM complain
      stop (QueryError.parse cause).message none
    | .ok script => script.forM (executeStatement options)

def dump (name : String) : SessionM Unit := do
  match (← get).database.table name with
  | .error cause => stop cause.message none
  | .ok table =>
    say (" | ".intercalate table.columnNames)
    table.rows.forM fun row => say (rowLine row)

def play (options : Options) (queries : List String) : SessionM Unit := do
  queries.forM (executeQuery options)
  options.dumps.forM dump

end Session

structure Transcript where
  exitCode : UInt32
  output : String
  diagnostics : String
deriving DecidableEq

namespace Transcript

def ofFailure (session : Session) (report : Report) : Transcript :=
  ⟨1, session.output, session.diagnostics ++ report.text⟩

def ofSession (options : Options) (queries : List String) : Transcript :=
  match (ExceptT.run (Session.play options queries)).run Session.start with
  | (.ok (), session) => ⟨0, session.output, session.diagnostics⟩
  | (.error report, session) => ofFailure session report

def versionLine : String :=
  "rql 0.1.0"

/-- Without a query among the arguments, the input is the only query. -/
def ofInput (options : Options) (input : ByteArray) : Transcript :=
  match String.fromUTF8? input with
  | some query => ofSession options [query]
  | none =>
    ofFailure Session.start
      ⟨"read queries from stdin", some "stream did not contain valid UTF-8"⟩

def ofInvocation (invocation : Invocation) (input : ByteArray) : Transcript :=
  match invocation with
  | .version => ⟨0, versionLine ++ "\n", ""⟩
  | .misuse message => ⟨2, "", "error: " ++ message ++ "\n"⟩
  | .session options =>
    if options.queries.isEmpty then ofInput options input else ofSession options options.queries

end Transcript

def Invocation.readsInput : Invocation → Bool
  | session options => options.queries.isEmpty
  | _ => false

end SqlStore.CommandLine
