import SqlStore.Text.Bytes
import SqlStore.Token.Lexeme

/-!
# Scanning

A scan walks over a text from left to right: it passes blank characters and cuts off the first match
of a list of kinds wherever it meets another character. It keeps the tokens it found also when it
meets a character that starts no lexeme. `tokenize` scans with the kinds in order of priority.
-/
namespace SqlStore
set_option autoImplicit false

instance decidableEqOutcome {ε α : Type} [DecidableEq ε] [DecidableEq α] :
    DecidableEq (Except ε α)
  | .ok a, .ok b => decidable_of_iff (a = b) (Except.ok.injEq a b).symm.to_iff
  | .error d, .error e => decidable_of_iff (d = e) (Except.error.injEq d e).symm.to_iff
  | .ok _, .error _ | .error _, .ok _ => isFalse nofun

inductive LexFault where
  | unexpectedChar (c : Char)
  | unterminatedString
deriving DecidableEq

structure LexError where
  fault : LexFault
  offset : Nat
deriving DecidableEq

namespace LexError

/-- Nothing but a quote starts a string, so a quote that starts no lexeme has no partner. -/
def starting (offset : Nat) (c : Char) : LexError :=
  ⟨if c = '\'' then .unterminatedString else .unexpectedChar c, offset⟩

def message (error : LexError) : String :=
  match error.fault with
  | .unexpectedChar c =>
    "unexpected character " ++ Text.quotedChar c ++ " at offset " ++ toString error.offset
  | .unterminatedString =>
    "unterminated string literal starting at offset " ++ toString error.offset

end LexError

/-- The tokens found, and the length of the text in bytes or the error that ended the scan. -/
structure Scan where
  tokens : List Token
  stop : Except LexError Nat

namespace Scan

def found (token : Token) (scan : Scan) : Scan :=
  ⟨token :: scan.tokens, scan.stop⟩

def walk (order : List TokenKind) (offset : Nat) (cs : List Char) : Scan :=
  match cs with
  | [] => ⟨[], .ok offset⟩
  | c :: rest =>
    if Text.isBlank c then walk order (offset + c.utf8Size) rest
    else
      match _h : TokenKind.firstMatch? order (c :: rest) with
      | none => ⟨[], .error (LexError.starting offset c)⟩
      | some (kind, n) =>
        let lexeme := (c :: rest).take n
        (walk order (offset + Text.byteLength lexeme) ((c :: rest).drop n)).found
          ⟨kind, String.ofList lexeme, offset⟩
termination_by cs.length
decreasing_by
  · simp
  · have := TokenKind.firstMatch?_bounds _h
    rw [List.length_drop]
    omega

def ofText (text : String) : Scan :=
  walk TokenKind.priority 0 text.toList

def result (scan : Scan) : Except LexError (List Token) :=
  scan.stop.map fun length => scan.tokens ++ [Token.endAt length]

@[simp] theorem walk_nil (order : List TokenKind) (offset : Nat) :
    walk order offset [] = ⟨[], .ok offset⟩ := by
  rw [walk]

theorem walk_of_isBlank {order : List TokenKind} {offset : Nat} {c : Char} {rest : List Char}
    (hc : Text.isBlank c = true) :
    walk order offset (c :: rest) = walk order (offset + c.utf8Size) rest := by
  rw [walk, if_pos hc]

theorem walk_of_none {order : List TokenKind} {offset : Nat} {c : Char} {rest : List Char}
    (hc : Text.isBlank c = false) (h : TokenKind.firstMatch? order (c :: rest) = none) :
    walk order offset (c :: rest) = ⟨[], .error (LexError.starting offset c)⟩ := by
  rw [walk, if_neg (by simp [hc])]
  split
  · rfl
  · rename_i h'
    rw [h] at h'
    cases h'

theorem walk_of_some {order : List TokenKind} {offset : Nat} {c : Char} {rest : List Char}
    {kind : TokenKind} {n : Nat} (hc : Text.isBlank c = false)
    (h : TokenKind.firstMatch? order (c :: rest) = some (kind, n)) :
    walk order offset (c :: rest) =
      (walk order (offset + Text.byteLength ((c :: rest).take n)) ((c :: rest).drop n)).found
        ⟨kind, String.ofList ((c :: rest).take n), offset⟩ := by
  rw [walk, if_neg (by simp [hc])]
  split
  · rename_i h'
    rw [h] at h'
    cases h'
  · rename_i h'
    rw [h] at h'
    cases h'
    rfl

end Scan

/-- The tokens of a text; a single end mark comes last. -/
def tokenize (text : String) : Except LexError (List Token) :=
  (Scan.ofText text).result

end SqlStore
