import SqlStore.Keyword

/-!
# Words and keywords

The words of a text are not empty and hold no blank. Collapsing a text changes only what is between
its words, so the text has the same words afterwards; therefore a text is read as a keyword exactly
if it has the words of that keyword.
-/
namespace SqlStore
set_option autoImplicit false

namespace Text

/-- A word stands between blanks: it is not empty and none of its characters is blank. -/
def IsSolid (word : List Char) : Prop :=
  word ≠ [] ∧ ∀ c ∈ word, isBlank c = false

theorem isSolid_of_mem_words {cs word : List Char} (h : word ∈ words cs) : IsSolid word := by
  induction cs generalizing word with
  | nil => cases h
  | cons c cs ih =>
    rw [words] at h
    split at h
    · exact ih h
    · rename_i hc
      simp only [Bool.not_eq_true] at hc
      split at h
      · rcases List.mem_cons.mp h with rfl | h
        · exact ⟨by simp, by simpa using hc⟩
        · exact ih h
      · cases hWords : words cs with
        | nil => simp [hWords] at h
        | cons first rest =>
          rw [hWords] at h ih
          rcases List.mem_cons.mp h with rfl | h
          · obtain ⟨-, hFirst⟩ := ih List.mem_cons_self
            exact ⟨by simp, List.forall_mem_cons.mpr ⟨hc, hFirst⟩⟩
          · exact ih (List.mem_cons_of_mem _ h)

theorem words_intercalate {ws : List (List Char)} (h : ∀ word ∈ ws, IsSolid word) :
    words ([' '].intercalate ws) = ws := by
  induction ws with
  | nil => rfl
  | cons word rest ih =>
    obtain ⟨hNonempty, hBlank⟩ := h word List.mem_cons_self
    have ih := ih fun w hw => h w (List.mem_cons_of_mem _ hw)
    cases rest with
    | nil => simpa using words_eq_singleton hBlank hNonempty
    | cons next rest =>
      rw [List.intercalate_cons_cons, List.append_assoc, words_append hBlank hNonempty (by rfl),
        List.singleton_append, words_cons_of_isBlank (by decide), ih]

theorem words_collapse (text : List Char) : words (collapse text) = words text :=
  words_intercalate fun _ h => isSolid_of_mem_words h

end Text

namespace Keyword

theorem collapse_spelling (k : Keyword) : Text.collapse k.spelling.toList = k.spelling.toList := by
  cases k <;> decide +kernel

theorem ofChars?_eq_some_iff {text : List Char} {k : Keyword} :
    ofChars? text = some k ↔ Text.words text = k.words := by
  rw [ofChars?, ofSpelling?_eq_some_iff]
  constructor
  · intro h
    rw [words, h, Text.words_collapse]
  · intro h
    rw [Text.collapse, h, words, ← Text.collapse, collapse_spelling]

end Keyword
end SqlStore
