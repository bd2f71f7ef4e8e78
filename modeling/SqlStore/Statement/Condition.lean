import SqlStore.Statement.Value

/-!
# Conditions

A condition combines comparisons of columns and values by AND and OR. Its text puts parentheses
around every combination, so it shows the whole tree; `holds` gives its truth from that of the
comparisons.
-/
namespace SqlStore
set_option autoImplicit false

inductive Comparator where
  | eq | ne | lt | le | gt | ge
deriving DecidableEq

namespace Comparator

def text : Comparator → String
  | eq => "="
  | ne => "!="
  | lt => "<"
  | le => "<="
  | gt => ">"
  | ge => ">="

/-- Two signs mean "unequal". -/
def ofText? (sign : String) : Option Comparator :=
  if sign = "=" then some eq
  else if sign = "!=" ∨ sign = "<>" then some ne
  else if sign = "<" then some lt
  else if sign = "<=" then some le
  else if sign = ">" then some gt
  else if sign = ">=" then some ge
  else none

@[simp] theorem ofText?_text (op : Comparator) : ofText? op.text = some op := by
  cases op <;> decide

end Comparator

inductive Operand where
  | column (name : String)
  | value (value : Value)
deriving DecidableEq

def Operand.text : Operand → String
  | column name => name
  | value v => v.text

inductive Condition where
  | comparison (left : Operand) (op : Comparator) (right : Operand)
  | and (left right : Condition)
  | or (left right : Condition)
deriving DecidableEq

namespace Condition

def text : Condition → String
  | comparison left op right => left.text ++ " " ++ op.text ++ " " ++ right.text
  | and left right => "(" ++ left.text ++ " AND " ++ right.text ++ ")"
  | or left right => "(" ++ left.text ++ " OR " ++ right.text ++ ")"

def holds (truth : Operand → Comparator → Operand → Bool) : Condition → Bool
  | comparison left op right => truth left op right
  | and left right => left.holds truth && right.holds truth
  | or left right => left.holds truth || right.holds truth

end Condition
end SqlStore
