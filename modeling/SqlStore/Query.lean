import SqlStore.Parser.Statement
import SqlStore.Token.Scan

/-!
# From text to statements

A text is scanned as a whole before it is parsed, so an error of scanning anywhere in it comes
before all errors of parsing.
-/
namespace SqlStore
set_option autoImplicit false

inductive QueryError where
  | lex (error : LexError)
  | parse (error : ParseError)
deriving DecidableEq

def QueryError.message : QueryError → String
  | lex error => "lex error: " ++ error.message
  | parse error => "parse error: " ++ error.message

def readTokens {α : Type} (read : List Token → Except ParseError α) (sql : String) :
    Except QueryError α := do
  let tokens ← (tokenize sql).mapError .lex
  (read tokens).mapError .parse

theorem readTokens_of_error {α : Type} {read : List Token → Except ParseError α} {sql : String}
    {e : LexError} (h : tokenize sql = .error e) : readTokens read sql = .error (.lex e) := by
  rw [readTokens, h]
  rfl

theorem readTokens_of_ok {α : Type} {read : List Token → Except ParseError α} {sql : String}
    {tokens : List Token} (h : tokenize sql = .ok tokens) :
    readTokens read sql = (read tokens).mapError .parse := by
  rw [readTokens, h]
  rfl

def Statement.ofText (sql : String) : Except QueryError Statement :=
  readTokens Statement.ofTokens sql

def Script.ofText (sql : String) : Except QueryError Script :=
  readTokens Script.ofTokens sql

/-- Whether two texts are read as the same statement or fail with the same error. -/
def sameReading (a b : String) : Bool :=
  match Statement.ofText a, Statement.ofText b with
  | .ok s, .ok t => decide (s = t)
  | .error d, .error e => decide (d = e)
  | _, _ => false

theorem sameReading_iff {a b : String} :
    sameReading a b = true ↔ Statement.ofText a = Statement.ofText b := by
  unfold sameReading
  cases Statement.ofText a <;> cases Statement.ofText b <;> simp

end SqlStore
