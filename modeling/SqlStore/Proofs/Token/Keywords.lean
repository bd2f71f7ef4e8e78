import SqlStore.Proofs.Token.Scanned

/-!
# Keywords in three forms

A keyword is looked up in a text, cut off the front of a text, and read again from the lexeme that
was cut off. The lookup depends on nothing but the words of the text. The cut takes the words of one
keyword, with blanks between them if there are two, up to a character that goes on no word. So the
lookup finds the keyword in its lexeme again, and it finds none in a name.
-/
namespace SqlStore
open Lexeme TokenKind
set_option autoImplicit false

namespace Text

/-- These words, in this order, and blanks around and between them. -/
inductive SetApart : List Char → List (List Char) → Prop
  | nil : SetApart [] []
  | blank {c : Char} {cs : List Char} {ws : List (List Char)} (isBlank : Text.isBlank c = true)
      (rest : SetApart cs ws) : SetApart (c :: cs) ws
  | word {word cs : List Char} {ws : List (List Char)} (solid : IsSolid word)
      (ends : cs.head?.all Text.isBlank = true) (rest : SetApart cs ws) :
      SetApart (word ++ cs) (word :: ws)

theorem SetApart.words_eq {cs : List Char} {ws : List (List Char)} (h : SetApart cs ws) :
    words cs = ws := by
  induction h with
  | nil => rfl
  | blank isBlank rest ih => rw [words_cons_of_isBlank isBlank, ih]
  | word solid ends rest ih => rw [words_append solid.2 solid.1 ends, ih]

theorem setApart_words (cs : List Char) : SetApart cs (words cs) := by
  induction cs with
  | nil => exact .nil
  | cons c cs ih =>
    rw [words]
    split
    · rename_i hBlank
      exact .blank hBlank ih
    rename_i hSolid
    rw [Bool.not_eq_true] at hSolid
    split
    · rename_i hEnds
      exact @SetApart.word [c] cs _ ⟨List.cons_ne_nil _ _, by simpa using hSolid⟩ hEnds ih
    · -- The next character is not blank, so the words of the rest start with it.
      rename_i hNext
      generalize words cs = ws at ih ⊢
      cases ih with
      | nil => exact absurd rfl hNext
      | blank isBlank rest => exact absurd isBlank hNext
      | @word word rest ws solid ends others =>
        have hWord : IsSolid (c :: word) :=
          ⟨List.cons_ne_nil _ _, List.forall_mem_cons.mpr ⟨hSolid, solid.2⟩⟩
        exact .word hWord ends others

theorem words_eq_iff {cs : List Char} {ws : List (List Char)} : words cs = ws ↔ SetApart cs ws :=
  ⟨fun h => h ▸ setApart_words cs, SetApart.words_eq⟩

end Text

/-- How many bytes at the front of a text form a lexeme of the kind. -/
def TokenKind.matchBytes? (kind : TokenKind) (cs : List Char) : Option Nat :=
  (kind.matchLength? cs).map fun n => Text.byteLength (cs.take n)

namespace Keyword

/-- The words of the keyword, and between two of them at least one blank. -/
inductive SpelledBy (k : Keyword) : List Char → Prop
  | single {word : List Char} (words : k.words = [word]) : SpelledBy k word
  | compound {head gap tail : List Char} (words : k.words = [head, tail])
      (blank : IsBlankRun gap) : SpelledBy k (head ++ gap ++ tail)

/-- The text starts with the words of the keyword, and the last one ends there. -/
structure Starts (k : Keyword) (text lexeme : List Char) : Prop where
  spelled : k.SpelledBy lexeme
  ahead : ∃ after, text = lexeme ++ after ∧ StopsAt isWordChar after

theorem isKeyword_iff_exists_spelledBy {lexeme : List Char} :
    IsKeyword lexeme ↔ ∃ k : Keyword, k.SpelledBy lexeme := by
  constructor
  · rintro (⟨words⟩ | ⟨words, blank⟩)
    · exact ⟨_, .single words⟩
    · exact ⟨_, .compound words blank⟩
  · rintro ⟨k, words | ⟨words, blank⟩⟩
    · exact .single words
    · exact .compound words blank

theorem ofChars?_of_spelledBy {k : Keyword} {lexeme : List Char} (h : k.SpelledBy lexeme) :
    ofChars? lexeme = some k := by
  rw [ofChars?_eq_some_iff]
  cases h with
  | single words => rw [words_of_isWord (isWord_of_words words), words]
  | compound words blank =>
    obtain ⟨hHead, hTail⟩ := isWord_of_words_pair words
    rw [words_compound hHead blank hTail, words]

theorem matchLength?_keyword_iff {text : List Char} {n : Nat} :
    keyword.matchLength? text = some n ↔
      ∃ (k : Keyword) (lexeme : List Char), k.Starts text lexeme ∧ lexeme.length = n := by
  constructor
  · intro h
    obtain ⟨lexeme, after, rfl, hLength, hShape, hEnds⟩ := shape_of_matchLength? h
    obtain ⟨k, hSpelled⟩ := isKeyword_iff_exists_spelledBy.mp hShape
    exact ⟨k, lexeme, ⟨hSpelled, after, rfl, hEnds⟩, hLength⟩
  · rintro ⟨k, lexeme, ⟨hSpelled, after, rfl, hEnds⟩, rfl⟩
    exact matchLength?_append_iff.mpr
      ⟨isKeyword_iff_exists_spelledBy.mpr ⟨k, hSpelled⟩, hEnds⟩

theorem Starts.unique {k l : Keyword} {text lexeme other : List Char} (h : k.Starts text lexeme)
    (hOther : l.Starts text other) : l = k ∧ other = lexeme := by
  have hLength := matchLength?_keyword_iff.mpr ⟨k, lexeme, h, rfl⟩
  rw [matchLength?_keyword_iff.mpr ⟨l, other, hOther, rfl⟩] at hLength
  obtain ⟨_, hText, -⟩ := h.ahead
  obtain ⟨_, hText', -⟩ := hOther.ahead
  obtain ⟨rfl, -⟩ := List.append_inj (hText'.symm.trans hText) (Option.some_inj.mp hLength)
  have hKeyword := ofChars?_of_spelledBy h.spelled
  rw [ofChars?_of_spelledBy hOther.spelled] at hKeyword
  exact ⟨Option.some_inj.mp hKeyword, rfl⟩

theorem Starts.take_length {k : Keyword} {text lexeme : List Char} (h : k.Starts text lexeme) :
    text.take lexeme.length = lexeme := by
  obtain ⟨after, rfl, -⟩ := h.ahead
  exact List.take_left

theorem matchBytes?_keyword_iff {text : List Char} {length : Nat} :
    keyword.matchBytes? text = some length ↔
      ∃ (k : Keyword) (lexeme : List Char),
        k.Starts text lexeme ∧ Text.byteLength lexeme = length := by
  rw [matchBytes?, Option.map_eq_some_iff]
  constructor
  · rintro ⟨n, hMatch, rfl⟩
    obtain ⟨k, lexeme, hStarts, rfl⟩ := matchLength?_keyword_iff.mp hMatch
    exact ⟨k, lexeme, hStarts, by rw [hStarts.take_length]⟩
  · rintro ⟨k, lexeme, hStarts, rfl⟩
    exact ⟨_, matchLength?_keyword_iff.mpr ⟨k, lexeme, hStarts, rfl⟩, by rw [hStarts.take_length]⟩

/-- No text that can be a name has the words of a keyword. -/
theorem ofChars?_of_isIdentifier {word : List Char} (h : IsIdentifier word) :
    ofChars? word = none := by
  rw [Option.eq_none_iff_forall_ne_some]
  intro k hk
  rw [ofChars?_eq_some_iff, words_of_isWord h.1] at hk
  exact h.2 (isReserved_iff.mpr (.inl ⟨k, hk.symm⟩))

theorem ofText?_of_tokenize {sql : String} {ts : List Token} (h : tokenize sql = .ok ts) {t : Token}
    (ht : t ∈ ts) :
    (t.kind = keyword → ∃ k, ofText? t.lexeme = some k) ∧
      (t.kind = identifier → ofText? t.lexeme = none) := by
  obtain ⟨tokens, hScanned, rfl⟩ := tokenize_iff.mp h
  rcases List.mem_append.mp ht with ht | ht
  · have hClass := hScanned.class_of_mem ht
    constructor
    · intro hKind
      rw [hKind] at hClass
      obtain ⟨k, hSpelled⟩ := isKeyword_iff_exists_spelledBy.mp hClass
      exact ⟨k, ofChars?_of_spelledBy hSpelled⟩
    · intro hKind
      rw [hKind] at hClass
      exact ofChars?_of_isIdentifier hClass
  · cases List.mem_singleton.mp ht
    exact ⟨nofun, nofun⟩

/-- A text is looked up by its words, and the front of a text is cut off by the words of a keyword,
which the lookup finds in what was cut off. -/
theorem lookup_agrees_with_scan :
    (∀ (text : String) (k : Keyword),
      (ofText? text = some k ↔ Text.words text.toList = Text.words k.spelling.toList) ∧
      (ofText? text = some k ↔ Text.SetApart text.toList k.words)) ∧
    (∀ (rest : List Char) (length : Nat),
      keyword.matchBytes? rest = some length ↔
        ∃ (k : Keyword) (lexeme : List Char),
          k.Starts rest lexeme ∧ Text.byteLength lexeme = length) ∧
    (∀ {rest lexeme : List Char} {k : Keyword}, k.Starts rest lexeme →
      ofText? (String.ofList lexeme) = some k ∧
      ∀ {l : Keyword} {other : List Char}, l.Starts rest other → l = k ∧ other = lexeme) ∧
    ∀ {sql : String} {ts : List Token}, tokenize sql = .ok ts → ∀ t ∈ ts,
      (t.kind = keyword → ∃ k, ofText? t.lexeme = some k) ∧
      (t.kind = identifier → ofText? t.lexeme = none) := by
  refine ⟨fun text k => ⟨ofChars?_eq_some_iff, ?_⟩, fun _ _ => matchBytes?_keyword_iff, ?_, ?_⟩
  · exact ofChars?_eq_some_iff.trans Text.words_eq_iff
  · intro rest lexeme k h
    refine ⟨?_, h.unique⟩
    rw [ofText?, String.toList_ofList]
    exact ofChars?_of_spelledBy h.spelled
  · exact fun h _ ht => ofText?_of_tokenize h ht

/-- An ideographic space, of three bytes, between the words of a compound. -/
theorem lookup_agrees_with_scan_compound :
    let rest := "NOT\u3000NULL, NOT".toList
    let lexeme := "NOT".toList ++ ['\u3000'] ++ "NULL".toList
    Keyword.Starts .notNull rest lexeme ∧ keyword.matchBytes? rest = some 10 ∧
      ofText? (String.ofList lexeme) = some .notNull ∧
      ofText? " NOT\t NULL\n" = some .notNull ∧
      ∃ ts, tokenize "a NOT\u3000NULL" = .ok ts ∧
        ∀ t ∈ ts, t.kind = identifier → ofText? t.lexeme = none := by
  intro rest lexeme
  have hSpelled : SpelledBy .notNull lexeme :=
    .compound (by decide +kernel) ⟨by decide, List.all_eq_true.mp (by decide)⟩
  have hStarts : Starts .notNull rest lexeme :=
    ⟨hSpelled, ", NOT".toList, by decide, stopsAt_cons.mpr (by decide)⟩
  have hTokens : tokenize "a NOT\u3000NULL" =
      .ok [⟨.identifier, "a", 0⟩, ⟨.keyword, "NOT\u3000NULL", 2⟩, .endAt 12] := by
    decide +kernel
  obtain ⟨hLookup, hCut, hFound, hTokenize⟩ := lookup_agrees_with_scan
  exact ⟨hStarts, (hCut rest 10).mpr ⟨_, _, hStarts, by decide⟩, (hFound hStarts).1,
    (hLookup " NOT\t NULL\n" .notNull).1.mpr (by decide +kernel), _, hTokens,
    fun t ht => (hTokenize hTokens t ht).2⟩

end Keyword
end SqlStore
