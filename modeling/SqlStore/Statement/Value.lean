/-!
# Literal values

A number is kept as it is written and never evaluated, so `1` and `01` differ. Strings and dates are
kept without their quotes.
-/
namespace SqlStore
set_option autoImplicit false

inductive Value where
  | number (digits : String)
  | string (content : String)
  | boolean (value : Bool)
  | date (content : String)
  | null
deriving DecidableEq

/-- Values in the order of the columns of a table or of a statement. -/
abbrev Row := List Value

namespace Value

def text : Value → String
  | number digits => digits
  | string content => "'" ++ content ++ "'"
  | boolean true => "TRUE"
  | boolean false => "FALSE"
  | date content => "'" ++ content ++ "'"
  | null => "NULL"

end Value
end SqlStore
