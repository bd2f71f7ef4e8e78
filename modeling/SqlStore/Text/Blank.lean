import SqlStore.Text.CharSet

/-!
# Blank characters

A character is blank if it has the Unicode property White_Space. Blank characters separate words;
`words` cuts a text into its maximal runs of other characters, and `collapse` joins these by one
space each.
-/
namespace SqlStore.Text
set_option autoImplicit false

def whiteSpace : CharSet where
  ranges :=
    [(0x9, 0xD), (0x20, 0x20), (0x85, 0x85), (0xA0, 0xA0), (0x1680, 0x1680), (0x2000, 0x200A),
     (0x2028, 0x2029), (0x202F, 0x202F), (0x205F, 0x205F), (0x3000, 0x3000)]

def isBlank (c : Char) : Bool :=
  whiteSpace.contains c

theorem isBlank_of_isWhitespace {c : Char} (h : c.isWhitespace = true) : isBlank c = true := by
  simp only [Char.isWhitespace, Bool.or_eq_true, decide_eq_true_eq] at h
  rcases h with ((rfl | rfl) | rfl) | rfl <;> decide

def words : List Char → List (List Char)
  | [] => []
  | c :: cs =>
    if isBlank c then words cs
    else if cs.head?.all isBlank then [c] :: words cs
    else (words cs).modifyHead (c :: ·)

theorem words_cons_of_isBlank {b : Char} (h : isBlank b = true) (cs : List Char) :
    words (b :: cs) = words cs := by
  simp [words, h]

/-- A run of characters that are not blank is a word if a blank or the end follows it. -/
theorem words_append {w rest : List Char} (hw : ∀ c ∈ w, isBlank c = false) (hNonempty : w ≠ [])
    (hRest : rest.head?.all isBlank = true) : words (w ++ rest) = w :: words rest := by
  induction w with
  | nil => exact absurd rfl hNonempty
  | cons c w ih =>
    have hc := hw c List.mem_cons_self
    cases w with
    | nil => simp [words, hc, hRest]
    | cons d w =>
      have hd := hw d (by simp)
      have hTail := ih (fun x hx => hw x (List.mem_cons_of_mem _ hx)) (by simp)
      simp only [List.cons_append] at hTail
      simp only [List.cons_append, words.eq_2 c, hc, List.head?_cons, Option.all_some, hd,
        Bool.false_eq_true, if_false, hTail, List.modifyHead_cons]

theorem words_eq_singleton {w : List Char} (hw : ∀ c ∈ w, isBlank c = false) (hNonempty : w ≠ []) :
    words w = [w] := by
  simpa [words] using @words_append w [] hw hNonempty (by simp)

def collapse (text : List Char) : List Char :=
  [' '].intercalate (words text)

end SqlStore.Text
