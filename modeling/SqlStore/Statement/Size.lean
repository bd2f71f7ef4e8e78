/-!
# Sizes of types

A size is a whole number below 2³². It is written in decimal digits, of which any number may be
leading zeros, and may have a plus sign.
-/
namespace SqlStore
set_option autoImplicit false

abbrev Size := UInt32

namespace Size

def dropPlus : List Char → List Char
  | '+' :: digits => digits
  | digits => digits

def ofText? (text : String) : Option Size :=
  let digits := dropPlus text.toList
  let value := Nat.ofDigitChars 10 digits 0
  if digits ≠ [] ∧ digits.all Char.isDigit = true ∧ value < UInt32.size then
    some (UInt32.ofNat value)
  else none

def text (size : Size) : String :=
  toString size.toNat

theorem toList_text (size : Size) : size.text.toList = Nat.toDigits 10 size.toNat := by
  simp [text, Nat.repr]

theorem dropPlus_of_isDigit {digits : List Char} (h : ∀ c ∈ digits, c.isDigit = true) :
    dropPlus digits = digits := by
  cases digits with
  | nil => rfl
  | cons c digits =>
    have hc : c ≠ '+' := by
      rintro rfl
      simpa using h '+' List.mem_cons_self
    simp [dropPlus, hc]

theorem ofText?_text (size : Size) : ofText? size.text = some size := by
  have hDigits : ∀ c ∈ Nat.toDigits 10 size.toNat, c.isDigit = true :=
    fun c hc => Nat.isDigit_of_mem_toDigits (by decide) (by decide) hc
  have hValue : Nat.ofDigitChars 10 (Nat.toDigits 10 size.toNat) 0 = size.toNat :=
    Nat.ofDigitChars_toDigits (by decide) (by decide)
  simp only [ofText?, toList_text, dropPlus_of_isDigit hDigits, hValue]
  rw [if_pos ⟨Nat.toDigits_ne_nil, List.all_eq_true.mpr hDigits, size.toNat_lt⟩]
  simp

end Size
end SqlStore
