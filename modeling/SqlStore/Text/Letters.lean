/-!
# Letters without case

Two texts have the same letters if they differ at most in the case of ASCII letters.
-/
namespace SqlStore.Text
set_option autoImplicit false

def sameLetters (s t : String) : Bool :=
  s.toList.map Char.toLower == t.toList.map Char.toLower

end SqlStore.Text
