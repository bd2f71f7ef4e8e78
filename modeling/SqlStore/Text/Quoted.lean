import SqlStore.Text.DefaultIgnorable
import SqlStore.Text.GraphemeExtend
import SqlStore.Text.Unprintable

/-!
# Quoted text

A text between quotation marks in which every character can be read: the mark itself, a backslash
and the usual controls are written with a backslash, and characters that print nothing, are ignored
by default or only modify their neighbour as a code point in hexadecimal digits.
-/
namespace SqlStore.Text
set_option autoImplicit false

def isReadable (c : Char) : Bool :=
  if c.toNat < 0x7F then 0x20 ≤ c.toNat
  else !isCombining c && !unprintable.contains c && !defaultIgnorable.contains c

def codePoint (c : Char) : List Char :=
  "\\u\x7b".toList ++ Nat.toDigits 16 c.toNat ++ "\x7d".toList

def escape (mark c : Char) : List Char :=
  if c = '\x00' then ['\\', '0']
  else if c = '\t' then ['\\', 't']
  else if c = '\r' then ['\\', 'r']
  else if c = '\n' then ['\\', 'n']
  else if c = '\\' ∨ c = mark then ['\\', c]
  else if isReadable c then [c]
  else codePoint c

def between (mark : Char) (cs : List Char) : String :=
  String.ofList (mark :: cs.flatMap (escape mark) ++ [mark])

def quoted (s : String) : String :=
  between '"' s.toList

def quotedChar (c : Char) : String :=
  between '\'' [c]

theorem escape_of_isReadable {mark c : Char} (h : isReadable c = true) (hMark : c ≠ mark)
    (hBackslash : c ≠ '\\') : escape mark c = [c] := by
  have hControl : ∀ d : Char, isReadable d = false → c ≠ d := by
    rintro d hd rfl
    simp [h] at hd
  simp [escape, hControl '\x00' (by decide), hControl '\t' (by decide), hControl '\r' (by decide),
    hControl '\n' (by decide), hMark, hBackslash, h]

end SqlStore.Text
