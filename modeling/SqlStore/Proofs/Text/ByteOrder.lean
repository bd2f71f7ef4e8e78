import Std

/-!
# The order of texts by bytes

Texts are ordered by their code points. Ordering them by the bytes of their UTF-8 form gives the same
order: of two different characters the one with the smaller code point has the smaller encoding at
the first byte in which the encodings differ, whatever follows them.
-/
namespace SqlStore.Text
set_option autoImplicit false

/-- The bytes of the UTF-8 form. -/
def bytes (s : String) : List UInt8 :=
  s.toUTF8.data.toList

theorem bytes_eq_flatMap (s : String) : bytes s = s.toList.flatMap String.utf8EncodeChar := by
  have hBytes : s.toUTF8 = (s.toList.flatMap String.utf8EncodeChar).toByteArray := by
    rw [String.toUTF8_eq_toByteArray, ← List.utf8Encode, ← String.toByteArray_ofList,
      String.ofList_toList]
  rw [bytes, hBytes]
  simp

theorem codePoint_lt (c : Char) : c.val.toNat < 0x110000 := by
  have hValid : c.val.toNat < 0xD800 ∨ 0xDFFF < c.val.toNat ∧ c.val.toNat < 0x110000 := c.valid
  omega

theorem utf8EncodeChar_append_lt {c d : Char} (h : c < d) (bs cs : List UInt8) :
    String.utf8EncodeChar c ++ bs < String.utf8EncodeChar d ++ cs := by
  have hLt : c.val.toNat < d.val.toNat := h
  have hBound := codePoint_lt d
  -- Each byte takes six bits from what is left; omega needs the quotients in steps of 64.
  have hTwice : ∀ n : Nat, n / 4096 = n / 64 / 64 := fun n => (Nat.div_div_eq_div_mul n 64 64).symm
  have hThrice : ∀ n : Nat, n / 262144 = n / 64 / 64 / 64 := fun n => by
    rw [Nat.div_div_eq_div_mul, Nat.div_div_eq_div_mul]
  unfold String.utf8EncodeChar
  generalize c.val.toNat = x at hLt
  generalize d.val.toNat = y at hLt hBound
  dsimp only
  repeat' split
  all_goals
    simp only [List.cons_append, List.nil_append, List.cons_lt_cons_iff, UInt8.lt_iff_toNat_lt,
      ← UInt8.toNat_inj, UInt8.toNat_ofNat', hTwice, hThrice]
  all_goals omega

theorem nil_lt_utf8EncodeChar_append (c : Char) (bs : List UInt8) :
    [] < String.utf8EncodeChar c ++ bs := by
  have hLength := String.length_utf8EncodeChar c
  have hPositive := c.utf8Size_pos
  cases hBytes : String.utf8EncodeChar c with
  | nil =>
    rw [hBytes] at hLength
    simp only [List.length_nil] at hLength
    omega
  | cons b rest => exact List.nil_lt_cons b _

theorem flatMap_utf8EncodeChar_lt {cs ds : List Char} (h : cs < ds) :
    cs.flatMap String.utf8EncodeChar < ds.flatMap String.utf8EncodeChar := by
  induction ds generalizing cs with
  | nil => cases h
  | cons d ds ih =>
    rw [List.flatMap_cons]
    cases cs with
    | nil => exact nil_lt_utf8EncodeChar_append d _
    | cons c cs =>
      rw [List.flatMap_cons]
      rcases List.cons_lt_cons_iff.mp h with hFirst | ⟨rfl, hRest⟩
      · exact utf8EncodeChar_append_lt hFirst _ _
      · exact List.append_left_lt (ih hRest)

theorem bytes_lt_bytes {a b : String} (h : a < b) : bytes a < bytes b := by
  rw [bytes_eq_flatMap, bytes_eq_flatMap]
  exact flatMap_utf8EncodeChar_lt (String.lt_iff.mp h)

theorem bytes_lt_bytes_of_compare {a b : String} (h : compare a b = .lt) : bytes a < bytes b :=
  bytes_lt_bytes (compareOfLessAndEq_eq_lt.mp h)

example : bytes "\uffff" < bytes "𐀀" := by decide +kernel

end SqlStore.Text
