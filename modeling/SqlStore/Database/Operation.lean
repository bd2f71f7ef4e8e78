import SqlStore.Database.Execute

/-!
# Operations

What can be done to a database, as data: a history is a list of operations. Every operation can be
tried on every database, and the operations of a history that fail are part of it.
-/
namespace SqlStore
set_option autoImplicit false

inductive Operation where
  | createTable (name : String) (columns : List Column)
  | insert (name : String) (row : Row)
  | drop (name : String)
  | execute (statement : Statement)
  | run (sql : String)
deriving DecidableEq

inductive Outcome where
  | done
  | dropped (table : Option Table)
  | affected (rows : Nat)
deriving DecidableEq

namespace Operation

def perform : Operation → StoreM Outcome
  | createTable name columns => do
    Database.createTable name columns
    return .done
  | insert name row => do
    Database.insert name row
    return .done
  | drop name => return .dropped (← Database.drop name)
  | execute statement => return .affected (← Database.execute statement)
  | run sql => return .affected (← Database.run sql)

end Operation

namespace Database

def step (db : Database) (operation : Operation) : Database :=
  (db.apply operation.perform).2

def after (db : Database) (history : List Operation) : Database :=
  history.foldl step db

/-- A database that some history leads to. -/
def Reachable (db : Database) : Prop :=
  ∃ history : List Operation, db = empty.after history

end Database
end SqlStore
