import SqlStore.Proofs.Text.ByteOrder
import SqlStore.Text.Bytes

/-!
# Slices

A slice of a text is given by the positions of its first byte and of the byte behind its last one.
There is no such slice if a position lies behind the end of the text or inside a character, or if
the first position comes after the second one. A position that is found by counting bytes is right
as long as only ASCII characters are counted: they are the bytes that no other character contains.
-/
namespace SqlStore
set_option autoImplicit false

theorem extract_of_toList_eq {s : String} {front middle back : List Char}
    (h : s.toList = front ++ middle ++ back) :
    s.toByteArray.extract (Text.byteLength front)
        (Text.byteLength front + Text.byteLength middle) =
      (String.ofList middle).toByteArray := by
  have hSplit : s = String.ofList front ++ (String.ofList middle ++ String.ofList back) := by
    rw [← String.ofList_append, ← String.ofList_append, ← List.append_assoc, ← h,
      String.ofList_toList]
  have hFront : Text.byteLength front = (String.ofList front).toByteArray.size := by
    rw [String.size_toByteArray, Text.utf8ByteSize_ofList]
  have hMiddle : Text.byteLength middle = (String.ofList middle).toByteArray.size := by
    rw [String.size_toByteArray, Text.utf8ByteSize_ofList]
  rw [hSplit, String.toByteArray_append, String.toByteArray_append, hFront]
  have hDrop := ByteArray.extract_append_size_add (a := (String.ofList front).toByteArray)
    (b := (String.ofList middle).toByteArray ++ (String.ofList back).toByteArray) (i := 0)
    (j := Text.byteLength middle)
  rw [Nat.add_zero] at hDrop
  rw [hDrop, ByteArray.extract_append_eq_left hMiddle]

namespace Text

/-- The positions of a slice that a text does not have. -/
structure BadSlice where
  start : Nat
  finish : Nat
deriving DecidableEq

def slice (s : String) (start finish : Nat) : Except BadSlice String :=
  if h : start ≤ finish ∧ String.Pos.Raw.IsValid s ⟨start⟩ ∧ String.Pos.Raw.IsValid s ⟨finish⟩ then
    .ok (s.extract (s.pos ⟨start⟩ h.2.1) (s.pos ⟨finish⟩ h.2.2))
  else .error ⟨start, finish⟩

def sliceFrom (s : String) (start : Nat) : Except BadSlice String :=
  slice s start s.utf8ByteSize

def sliceTo (s : String) (finish : Nat) : Except BadSlice String :=
  slice s 0 finish

theorem exists_slice_iff {s : String} {start finish : Nat} :
    (∃ piece, slice s start finish = .ok piece) ↔
      start ≤ finish ∧ finish ≤ s.utf8ByteSize ∧ String.Pos.Raw.IsValid s ⟨start⟩ ∧
        String.Pos.Raw.IsValid s ⟨finish⟩ := by
  rw [slice]
  constructor
  · rintro ⟨piece, h⟩
    split at h
    · rename_i hValid
      exact ⟨hValid.1, hValid.2.2.le_utf8ByteSize, hValid.2⟩
    · cases h
  · rintro ⟨hLe, -, hValid⟩
    exact ⟨_, dif_pos ⟨hLe, hValid⟩⟩

theorem exists_split_of_isValid {s : String} {position : Nat}
    (h : String.Pos.Raw.IsValid s ⟨position⟩) :
    ∃ front back, s = String.ofList (front ++ back) ∧ position = byteLength front := by
  obtain ⟨n, hn⟩ := String.Pos.Raw.isValid_iff_exists_take_toList.mp h
  refine ⟨s.toList.take n, s.toList.drop n, ?_, hn.trans (utf8ByteSize_ofList _)⟩
  rw [List.take_append_drop, String.ofList_toList]

theorem slice_ofList (front middle back : List Char) :
    slice (String.ofList (front ++ middle ++ back)) (byteLength front)
      (byteLength front + byteLength middle) = .ok (String.ofList middle) := by
  have hText : (String.ofList (front ++ middle ++ back)).toList = front ++ middle ++ back :=
    String.toList_ofList
  have hStart : String.Pos.Raw.IsValid (String.ofList (front ++ middle ++ back))
      ⟨byteLength front⟩ :=
    isValid_byteLength (hText.trans (List.append_assoc ..))
  have hFinish : String.Pos.Raw.IsValid (String.ofList (front ++ middle ++ back))
      ⟨byteLength front + byteLength middle⟩ := by
    rw [← byteLength_append]
    exact isValid_byteLength hText
  rw [slice, dif_pos ⟨Nat.le_add_right _ _, hStart, hFinish⟩, Except.ok.injEq,
    ← String.toByteArray_inj, String.toByteArray_extract]
  exact extract_of_toList_eq hText

theorem sliceFrom_ofList (front back : List Char) :
    sliceFrom (String.ofList (front ++ back)) (byteLength front) = .ok (String.ofList back) := by
  have hSlice := slice_ofList front back []
  rw [List.append_nil] at hSlice
  rw [sliceFrom, utf8ByteSize_ofList, byteLength_append, hSlice]

theorem sliceTo_ofList (front back : List Char) :
    sliceTo (String.ofList (front ++ back)) (byteLength front) = .ok (String.ofList front) := by
  have hSlice := slice_ofList [] front back
  rwa [List.nil_append, byteLength_nil, Nat.zero_add] at hSlice

theorem byteLength_eq_zero_iff {cs : List Char} : byteLength cs = 0 ↔ cs = [] := by
  cases cs with
  | nil => simp
  | cons c cs =>
    have := c.utf8Size_pos
    simp only [byteLength_cons, reduceCtorEq, iff_false]
    omega

/-! ### Bytes of ASCII characters -/

def IsAscii (c : Char) : Prop :=
  c.toNat < 0x80

instance (c : Char) : Decidable (IsAscii c) :=
  Nat.decLt c.toNat 0x80

theorem isAscii_of_all {cs : List Char} (h : cs.all (IsAscii ·) = true) : ∀ c ∈ cs, IsAscii c :=
  fun c hc => of_decide_eq_true (List.all_eq_true.mp h c hc)

theorem utf8Size_of_isAscii {c : Char} (h : IsAscii c) : c.utf8Size = 1 := by
  have hVal : c.val.toNat < 0x80 := h
  rw [Char.utf8Size, if_pos (UInt32.le_iff_toNat_le.mpr (Nat.le_of_lt_succ hVal))]

theorem byteLength_of_isAscii {cs : List Char} (h : ∀ c ∈ cs, IsAscii c) :
    byteLength cs = cs.length := by
  induction cs with
  | nil => rfl
  | cons c cs ih =>
    obtain ⟨hc, hcs⟩ := List.forall_mem_cons.mp h
    rw [byteLength_cons, utf8Size_of_isAscii hc, ih hcs, List.length_cons, Nat.add_comm]

/-- An ASCII character is passed by one byte. -/
theorem sliceFrom_ofList_cons {c : Char} (hc : IsAscii c) (front back : List Char) :
    sliceFrom (String.ofList (front ++ c :: back)) (byteLength front + 1) =
      .ok (String.ofList back) := by
  have hSlice := sliceFrom_ofList (front ++ [c]) back
  have hOne : byteLength [c] = 1 := utf8Size_of_isAscii hc
  rwa [byteLength_append, hOne, List.append_assoc, List.singleton_append] at hSlice

/-- A text byte by byte, each byte taken for the character with its code. -/
def byteChars (s : String) : List Char :=
  (bytes s).map Char.ofUInt8

theorem byteChars_nil : byteChars (String.ofList []) = [] := by
  rw [byteChars, bytes_eq_flatMap, String.toList_ofList]
  rfl

theorem byteChars_cons (c : Char) (cs : List Char) :
    byteChars (String.ofList (c :: cs)) =
      (String.utf8EncodeChar c).map Char.ofUInt8 ++ byteChars (String.ofList cs) := by
  rw [byteChars, byteChars, bytes_eq_flatMap, bytes_eq_flatMap, String.toList_ofList,
    String.toList_ofList, List.flatMap_cons, List.map_append]

theorem toNat_ofUInt8 (b : UInt8) : (Char.ofUInt8 b).toNat = b.toNat :=
  UInt8.toNat_toUInt32 b

/-- The texts have the same ASCII characters up to the first other one, or up to their end. -/
inductive SameAscii : List Char → List Char → Prop where
  | nil : SameAscii [] []
  | ascii {c : Char} {cs ds : List Char} (isAscii : IsAscii c) (rest : SameAscii cs ds) :
      SameAscii (c :: cs) (c :: ds)
  | other {c d : Char} {cs ds : List Char} (left : ¬ IsAscii c) (right : ¬ IsAscii d) :
      SameAscii (c :: cs) (d :: ds)

/-- The first byte of a longer encoding is none of ASCII. -/
theorem exists_utf8EncodeChar {c : Char} (h : ¬ IsAscii c) :
    ∃ d ds, (String.utf8EncodeChar c).map Char.ofUInt8 = d :: ds ∧ ¬ IsAscii d := by
  have hVal : ¬ c.val.toNat ≤ 127 := fun hLe => h (Nat.lt_succ_of_le hLe)
  have hBound := codePoint_lt c
  unfold String.utf8EncodeChar
  simp only [if_neg hVal]
  repeat' split
  all_goals
    refine ⟨_, _, rfl, ?_⟩
    simp only [IsAscii, toNat_ofUInt8, UInt8.toNat_ofNat']
    omega

theorem sameAscii_byteChars (cs : List Char) : SameAscii (byteChars (String.ofList cs)) cs := by
  induction cs with
  | nil =>
    rw [byteChars_nil]
    exact .nil
  | cons c cs ih =>
    rw [byteChars_cons]
    by_cases hc : IsAscii c
    · have hChar : Char.ofUInt8 c.val.toUInt8 = c := by
        have hByte : c.toNat < 256 := Nat.lt_trans hc (by decide)
        rw [← Char.toNat_inj, toNat_ofUInt8, UInt32.toNat_toUInt8]
        exact Nat.mod_eq_of_lt hByte
      rw [String.utf8EncodeChar_eq_singleton (utf8Size_of_isAscii hc), List.map_singleton, hChar]
      exact .ascii hc ih
    · obtain ⟨d, ds, hBytes, hd⟩ := exists_utf8EncodeChar hc
      rw [hBytes]
      exact .other hd hc

theorem eq_false_of_not_isAscii {p : Char → Bool} (hAscii : ∀ c, p c = true → IsAscii c) {c : Char}
    (hc : ¬ IsAscii c) : p c = false := by
  rw [Bool.eq_false_iff]
  exact fun h => hc (hAscii c h)

/-- A run of ASCII characters is the same run byte by byte. -/
theorem SameAscii.takeWhile_eq {p : Char → Bool} (hAscii : ∀ c, p c = true → IsAscii c)
    {cs ds : List Char} (h : SameAscii cs ds) : cs.takeWhile p = ds.takeWhile p := by
  induction h with
  | nil => rfl
  | ascii _ _ ih => rw [List.takeWhile_cons, List.takeWhile_cons, ih]
  | other left right =>
    rw [List.takeWhile_cons, List.takeWhile_cons, eq_false_of_not_isAscii hAscii left,
      eq_false_of_not_isAscii hAscii right]
    simp

end Text
end SqlStore
