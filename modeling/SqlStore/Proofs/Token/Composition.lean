import SqlStore.Proofs.Token.Front

/-!
# Texts one after the other

No lexeme could go on over a semicolon that comes after it. So a text that can be scanned keeps its
tokens if a semicolon and another text follow, and the scan goes on behind the semicolon as if the
other text stood alone, except that offsets are counted from the front of the first text.
-/
namespace SqlStore
open Lexeme TokenKind
set_option autoImplicit false

/-! ### Texts before a terminator -/

theorem halts_semicolon (more : List Char) : Halts (';' :: more) where
  blank := stopsAt_cons.mpr (by decide)
  word := stopsAt_cons.mpr (by decide)
  operator := by simp

theorem Scanned.scannedFront {offset : Nat} {cs : List Char} {tokens : List Token}
    (h : Scanned offset cs tokens) (more : List Char) :
    ScannedFront (';' :: more) offset cs tokens := by
  refine (scannedFront_nil_iff.mpr h).changed halts_nil (halts_semicolon more) ?_
  rintro ⟨c, cs, ⟨⟩, -⟩

theorem stands_semicolon (rest : List Char) : terminator.Stands [';'] rest :=
  ⟨rfl, trivial, nofun⟩

/-! ### Displaced scans -/

/-- The same token at a distance in bytes. -/
def Token.displaced (distance : Nat) (t : Token) : Token :=
  { t with offset := t.offset + distance }

def LexError.displaced (distance : Nat) (error : LexError) : LexError :=
  { error with offset := error.offset + distance }

namespace Scan

/-- The scan of the same text at a distance. -/
def displaced (distance : Nat) (scan : Scan) : Scan :=
  ⟨scan.tokens.map (Token.displaced distance),
    match scan.stop with
    | .ok length => .ok (length + distance)
    | .error e => .error (e.displaced distance)⟩

variable {order : List TokenKind} {offset : Nat}

theorem walk_displaced (order : List TokenKind) (offset distance : Nat) (cs : List Char) :
    walk order (offset + distance) cs = (walk order offset cs).displaced distance := by
  fun_induction walk order offset cs with
  | case1 => simp [displaced]
  | case2 offset c rest hBlank ih =>
    rw [walk_of_isBlank hBlank, Nat.add_right_comm, ih]
  | case3 offset c rest hBlank hMatch =>
    rw [walk_of_none (by simpa using hBlank) hMatch]
    rfl
  | case4 offset c rest hBlank kind n hMatch lexeme ih =>
    rw [walk_of_some (by simpa using hBlank) hMatch, Nat.add_right_comm, ih]
    rfl

/-- Behind the terminator the scan begins anew. -/
theorem walk_followed (hOrder : IsPriority order) {cs : List Char} {tokens : List Token}
    (h : Scanned offset cs tokens) (more : List Char) :
    walk order offset (cs ++ ';' :: more) =
      let finish := offset + Text.byteLength cs
      let behind := (walk order 0 more).displaced (finish + 1)
      ⟨tokens ++ ⟨.terminator, ";", finish⟩ :: behind.tokens, behind.stop⟩ := by
  have hMatch := (firstMatch?_append_iff hOrder).mpr (stands_semicolon more)
  have hSemicolon : walk order (offset + Text.byteLength cs) (';' :: more) =
      (walk order (offset + Text.byteLength cs + 1) more).found
        ⟨.terminator, ";", offset + Text.byteLength cs⟩ := walk_of_some (by decide) hMatch
  rw [walk_of_scannedFront hOrder (h.scannedFront more), hSemicolon,
    ← Nat.zero_add (offset + Text.byteLength cs + 1), walk_displaced]
  simp [found]

end Scan

theorem toList_composed (a b : String) : (a ++ ";" ++ b).toList = a.toList ++ ';' :: b.toList := by
  simp

/-- The tokens of the first text, a terminator and the tokens of the second text at a distance. -/
theorem tokenize_composed {a : String} {tokens : List Token} (h : Scanned 0 a.toList tokens)
    (b : String) :
    tokenize (a ++ ";" ++ b) =
      match tokenize b with
      | .ok more => .ok (tokens ++ ⟨.terminator, ";", a.utf8ByteSize⟩ ::
          more.map (Token.displaced (a.utf8ByteSize + 1)))
      | .error e => .error (e.displaced (a.utf8ByteSize + 1)) := by
  rw [tokenize, tokenize, Scan.ofText, Scan.ofText, toList_composed,
    Scan.walk_followed isPriority_priority h, Nat.zero_add, ← Text.utf8ByteSize_eq]
  cases hStop : (Scan.walk priority 0 b.toList).stop with
  | error e => simp [Scan.result, Scan.displaced, hStop, Except.map]
  | ok length => simp [Scan.result, Scan.displaced, hStop, Except.map, Token.displaced, Token.endAt]

end SqlStore
