/-!
# Lengths in bytes

Positions in a text are counted in bytes of its UTF-8 form. `byteLength` is that count for a list of
characters. It is additive, and `utf8ByteSize_ofList` says that it is the size of the string that
the characters form. `charIndex?` goes back from bytes to characters.
-/
namespace SqlStore.Text
set_option autoImplicit false

def byteLength : List Char → Nat
  | [] => 0
  | c :: cs => c.utf8Size + byteLength cs

@[simp] theorem byteLength_nil : byteLength [] = 0 := rfl

@[simp] theorem byteLength_cons (c : Char) (cs : List Char) :
    byteLength (c :: cs) = c.utf8Size + byteLength cs := rfl

@[simp] theorem byteLength_append (cs ds : List Char) :
    byteLength (cs ++ ds) = byteLength cs + byteLength ds := by
  induction cs with
  | nil => simp
  | cons c cs ih => rw [List.cons_append, byteLength_cons, byteLength_cons, ih, Nat.add_assoc]

theorem byteLength_take_add_drop (n : Nat) (cs : List Char) :
    byteLength (cs.take n) + byteLength (cs.drop n) = byteLength cs := by
  rw [← byteLength_append, List.take_append_drop]

theorem utf8ByteSize_ofList (cs : List Char) :
    (String.ofList cs).utf8ByteSize = byteLength cs := by
  induction cs with
  | nil => rfl
  | cons c cs ih =>
    have hSplit : String.ofList (c :: cs) = String.singleton c ++ String.ofList cs := by
      rw [String.singleton_eq_ofList, ← String.ofList_append]
      rfl
    rw [hSplit, String.utf8ByteSize_append, String.utf8ByteSize_singleton, ih, byteLength_cons]

theorem utf8ByteSize_eq (s : String) : s.utf8ByteSize = byteLength s.toList := by
  rw [← utf8ByteSize_ofList, String.ofList_toList]

/-- A character starts behind every front part of a string, or the string ends there. -/
theorem isValid_byteLength {s : String} {before after : List Char}
    (h : s.toList = before ++ after) : String.Pos.Raw.IsValid s ⟨byteLength before⟩ := by
  rw [String.Pos.Raw.isValid_iff_exists_append]
  refine ⟨String.ofList before, String.ofList after, ?_, ?_⟩
  · rw [← String.ofList_append, ← h, String.ofList_toList]
  · rw [String.Pos.Raw.ext_iff, String.byteIdx_rawEndPos, utf8ByteSize_ofList]

/-- The number of characters before a position in bytes, if a character starts there or the text
ends there. -/
def charIndex? : List Char → Nat → Option Nat
  | [], offset => if offset = 0 then some 0 else none
  | c :: cs, offset =>
    if offset = 0 then some 0
    else if offset < c.utf8Size then none
    else (charIndex? cs (offset - c.utf8Size)).map (· + 1)

theorem charIndex?_byteLength (cs ds : List Char) :
    charIndex? (cs ++ ds) (byteLength cs) = some cs.length := by
  induction cs with
  | nil => cases ds <;> simp [charIndex?]
  | cons c cs ih =>
    have hPositive := c.utf8Size_pos
    rw [List.cons_append, byteLength_cons, charIndex?, if_neg (by omega), if_neg (by omega),
      Nat.add_sub_cancel_left, ih]
    rfl

end SqlStore.Text
