import SqlStore.Parser.Basic
import SqlStore.Statement.Literal

/-!
# Parsing conditions

AND binds tighter than OR, and both group to the left. Parentheses may enclose any condition; they
leave no trace in the result.
-/
namespace SqlStore.Parser
set_option autoImplicit false

def literal : ParseM Value := do
  match (← peek).literal? with
  | some value =>
    advance
    return value
  | none => unexpected .literal

def operand : ParseM Operand := do
  let token ← peek
  if token.kind = .identifier then
    advance
    return .column token.lexeme
  else
    match token.literal? with
    | some value =>
      advance
      return .value value
    | none => unexpected .operand

def comparator : ParseM Comparator := do
  let index ← index
  let token ← consume .comparator .comparator
  match Comparator.ofText? token.lexeme with
  | some op => return op
  | none => fail (.unexpectedToken .comparator token) index

def comparison : ParseM Condition := do
  let left ← operand
  let op ← comparator
  let right ← operand
  return .comparison left op right

def checkConnective (word : String) : ParseM Bool := do
  return (← peek).isConnective word

/-- One or more items with a connective between them, grouped to the left. -/
def chain (word : String) (join : Condition → Condition → Condition) (item : ParseM Condition) :
    ParseM Condition := do
  let first ← item
  repeatWhile (stepIf (checkConnective word)) (fun left => return join left (← item)) first

/-- A condition with parentheses nested at most `depth` deep. At depth 0 no token is left, so
neither is an operand. -/
def conditionWithin : Nat → ParseM Condition
  | 0 => unexpected .operand
  | depth + 1 =>
    let primary : ParseM Condition := do
      if ← check .parenOpen then parenthesized (conditionWithin depth) else comparison
    chain "OR" .or (chain "AND" .and primary)

/-- Every parenthesis takes a token, so the tokens ahead bound the depth. -/
def condition : ParseM Condition := do
  conditionWithin (← get).rest.length

end SqlStore.Parser
