import SqlStore.Statement.Value
import SqlStore.Token.Basic

/-!
# Literals

The value that a token denotes by its kind and lexeme. Strings and dates lose their quotes, numbers
stay as they are written, and a truth value is true if it is spelled so in any case.
-/
namespace SqlStore
set_option autoImplicit false

def Token.literal? (token : Token) : Option Value :=
  match token.kind with
  | .numberLiteral => some (.number token.lexeme)
  | .stringLiteral => some (.string token.unquoted)
  | .dateLiteral => some (.date token.unquoted)
  | .booleanLiteral => some (.boolean (Text.sameLetters token.lexeme "TRUE"))
  | .nullLiteral => some .null
  | _ => none

end SqlStore
