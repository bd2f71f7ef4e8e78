import SqlStore.Text.Bytes

/-!
# Carets

A place in a query is shown by a caret below it. The query stands on one line: every line break and
tab in it becomes a space, so it keeps its number of characters.
-/
namespace SqlStore.CommandLine
set_option autoImplicit false

def flatten (c : Char) : Char :=
  if c = '\n' ∨ c = '\r' ∨ c = '\t' then ' ' else c

/-- The column below a position in bytes. A position inside a character has none of its own and
counts as a column. -/
def caretColumn (query : String) (offset : Nat) : Nat :=
  (Text.charIndex? query.toList offset).getD offset

def caretLine (column : Nat) : String :=
  String.ofList (List.replicate column ' ') ++ "^"

def caret (query : String) (offset : Nat) : List String :=
  [String.ofList (query.toList.map flatten), caretLine (caretColumn query offset)]

end SqlStore.CommandLine
