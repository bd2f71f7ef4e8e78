import SqlStore.Parser.Column

/-!
# Parsing statements and scripts

A statement may end with a terminator. A script is any number of statements; terminators that end
nothing are passed over. Names of columns must be distinct, and every row of values must have as
many as there are named columns.
-/
namespace SqlStore
set_option autoImplicit false

namespace Parser

def distinctColumn (columns : List Column) : ParseM (List Column) := do
  let index ← index
  let column ← column
  if columns.any (·.name == column.name) then
    fail (.duplicateColumn column.name) index
  else
    return columns ++ [column]

/-- A column or a condition on the whole table. -/
def tableEntry (entries : List Column × List Condition) : ParseM (List Column × List Condition) := do
  if ← stepIf (checkKeyword .check) then
    return (entries.1, entries.2 ++ [← parenthesized condition])
  else
    return (← distinctColumn entries.1, entries.2)

def createTable : ParseM CreateTable := do
  consumeKeyword .create
  consumeKeyword .table
  let table ← consume .identifier .tableName
  let entries ← parenthesized do
    let first ← column
    repeatWhile (accept .comma) tableEntry ([first], [])
  return ⟨table.lexeme, entries.1, entries.2⟩

def distinctName (names : List String) : ParseM (List String) := do
  let index ← index
  let name ← consume .identifier .columnName
  if name.lexeme ∈ names then
    fail (.duplicateColumn name.lexeme) index
  else
    return names ++ [name.lexeme]

def row : ParseM Row :=
  parenthesized (separated (fun values => return values ++ [← literal]) [])

def rowOf (width : Nat) (rows : List Row) : ParseM (List Row) := do
  let index ← index
  let row ← row
  if row.length = width then
    return rows ++ [row]
  else
    fail (.columnCountMismatch rows.length width row.length) index

def insertInto : ParseM InsertInto := do
  consumeKeyword .insert
  consumeKeyword .into
  let table ← consume .identifier .tableName
  let columns ← parenthesized (separated distinctName [])
  consumeKeyword .values
  let rows ← separated (rowOf columns.length) []
  return ⟨table.lexeme, columns, rows⟩

/-- Takes the terminator of a statement that began at the token `first`. -/
def finish (keyword : Keyword) (first : Nat) (statement : Statement) : ParseM Statement := do
  let _ ← accept .terminator
  record (.statement keyword statement.table first (← index))
  return statement

def statement : ParseM Statement := do
  let first ← index
  let token ← peek
  if token.kind = .keyword then
    match Keyword.ofText? token.lexeme with
    | some .create => finish .create first (.createTable (← createTable))
    | some .insert => finish .insert first (.insertInto (← insertInto))
    | some keyword => fail (.unsupportedStatement keyword.spelling) first
    | none => fail (.unsupportedStatement token.lexeme) first
  else
    unexpected .statementKeyword

def skipTerminators : ParseM Unit :=
  repeatWhile (accept .terminator) (fun _ => return ()) ()

def script : ParseM (List Statement) :=
  repeatWhile
    (do
      skipTerminators
      return !(← get).atEnd)
    (fun statements => return statements ++ [← statement]) []

def endOfInput : ParseM Unit := do
  if (← get).atEnd then return () else unexpected .endOfInput

end Parser

/-- Reads exactly one statement. -/
def Statement.ofTokens (tokens : List Token) : Except ParseError Statement :=
  ((Parser.ofTokens tokens).run (do
    let statement ← Parser.statement
    Parser.endOfInput
    return statement)).1

/-- Statements in the order in which they are executed. -/
abbrev Script := List Statement

def Script.ofTokens (tokens : List Token) : Except ParseError Script :=
  ((Parser.ofTokens tokens).run Parser.script).1

end SqlStore
