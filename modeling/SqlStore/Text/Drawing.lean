import SqlStore.Text.Quoted

/-!
# Drawings of structured values

A drawing shows how a value is built, in two layouts at once: `line` on a single line, `block` with
every part on lines of its own, four spaces deeper than the whole and followed by a comma. The
combinators build the drawing of a whole from the drawings of its parts.
-/
namespace SqlStore.Text
set_option autoImplicit false

structure Drawing where
  line : String
  block : List String
deriving DecidableEq

namespace Drawing

def atom (text : String) : Drawing :=
  ⟨text, [text]⟩

def quoted (text : String) : Drawing :=
  atom (Text.quoted text)

def number (n : Nat) : Drawing :=
  atom (toString n)

def indent (lines : List String) : List String :=
  lines.map ("    " ++ ·)

/-- The lines of a part, with the comma after the last of them. -/
def commaEnded : List String → List String
  | [] => [","]
  | [last] => [last ++ ","]
  | first :: second :: rest => first :: commaEnded (second :: rest)

def parts (items : List Drawing) : List String :=
  items.flatMap fun item => indent (commaEnded item.block)

def list (items : List Drawing) : Drawing where
  line := "[" ++ ", ".intercalate (items.map line) ++ "]"
  block := if items.isEmpty then ["[]"] else "[" :: parts items ++ ["]"]

def apply (name : String) (items : List Drawing) : Drawing where
  line := name ++ "(" ++ ", ".intercalate (items.map line) ++ ")"
  block := (name ++ "(") :: parts items ++ [")"]

def field (label : String) (value : Drawing) : Drawing where
  line := label ++ ": " ++ value.line
  block := value.block.modifyHead (label ++ ": " ++ ·)

def record (name : String) (fields : List Drawing) : Drawing where
  line := name ++ " \x7b " ++ ", ".intercalate (fields.map line) ++ " \x7d"
  block := (name ++ " \x7b") :: parts fields ++ ["\x7d"]

def option {α : Type} (draw : α → Drawing) : Option α → Drawing
  | none => atom "None"
  | some a => apply "Some" [draw a]

def blockText (drawing : Drawing) : String :=
  "\n".intercalate drawing.block

end Drawing
end SqlStore.Text
