import SqlStore.Proofs.Token.Scanned

/-!
# Recognized tokens

Every token that a scan finds is a lexeme of its class and could not be longer where it stands. What
this means for the characters after it depends on the kind: a word ends before a character of another
sort, a number before one that is neither a digit nor the point of a fraction, and a name is not the
first word of a keyword.
-/
namespace SqlStore
open Lexeme TokenKind
set_option autoImplicit false

namespace Lexeme

/-! ### Keywords by their spelling -/

def singleKeywords : List String :=
  ["SELECT", "FROM", "WHERE", "INSERT", "INTO", "VALUES", "UPDATE", "SET", "DELETE", "CREATE",
   "DROP", "TABLE", "DATABASE", "UNIQUE", "CHECK", "DEFAULT", "BOOL", "INT", "FLOAT", "DATE",
   "CHAR", "VARCHAR"]

def compoundKeywords : List (String × String) :=
  [("NOT", "NULL"), ("PRIMARY", "KEY")]

def reservedWords : List String :=
  singleKeywords ++ ["TRUE", "FALSE", "NULL", "AND", "OR"]

theorem exists_words_singleton_iff {word : List Char} :
    (∃ k : Keyword, k.words = [word]) ↔ String.ofList word ∈ singleKeywords := by
  constructor
  · rintro ⟨k, hWords⟩
    have hAll : ∀ k ∈ Keyword.all, k.words.length = 1 →
        ∀ word ∈ k.words, String.ofList word ∈ singleKeywords := by decide +kernel
    exact hAll k k.mem_all (by rw [hWords]; rfl) word (by simp [hWords])
  · intro h
    have hAll : ∀ word ∈ singleKeywords, ∃ k ∈ Keyword.all, k.words = [word.toList] := by
      decide +kernel
    obtain ⟨k, -, hWords⟩ := hAll _ h
    exact ⟨k, by rwa [String.toList_ofList] at hWords⟩

theorem exists_words_pair_iff {head tail : List Char} :
    (∃ k : Keyword, k.words = [head, tail]) ↔
      (String.ofList head, String.ofList tail) ∈ compoundKeywords := by
  constructor
  · rintro ⟨k, hWords⟩
    have hAll : ∀ k ∈ Keyword.all, k.words.length = 2 →
        ∀ head ∈ k.words.head?, ∀ tail ∈ k.words.getLast?,
          (String.ofList head, String.ofList tail) ∈ compoundKeywords := by decide +kernel
    exact hAll k k.mem_all (by rw [hWords]; rfl) head (by simp [hWords]) tail (by simp [hWords])
  · intro h
    have hAll : ∀ pair ∈ compoundKeywords,
        ∃ k ∈ Keyword.all, k.words = [pair.1.toList, pair.2.toList] := by decide +kernel
    obtain ⟨k, -, hWords⟩ := hAll _ h
    exact ⟨k, by simpa only [String.toList_ofList] using hWords⟩

theorem isReserved_iff_mem {word : List Char} :
    IsReserved word ↔ String.ofList word ∈ reservedWords := by
  have hOthers : word ∈ truthWords ∨ word ∈ nullWords ∨ word ∈ connectiveWords ↔
      String.ofList word ∈ ["TRUE", "FALSE", "NULL", "AND", "OR"] := by
    simp [truthWords, nullWords, connectiveWords, ← String.toList_inj, or_assoc]
  rw [isReserved_iff, exists_words_singleton_iff, hOthers, reservedWords, List.mem_append]

/-- A keyword is one of the reserved words or a pair of words with blanks between them. -/
theorem isKeyword_iff {lexeme : List Char} :
    IsKeyword lexeme ↔ String.ofList lexeme ∈ singleKeywords ∨
      ∃ gap, IsBlankRun gap ∧ ∃ pair ∈ compoundKeywords,
        lexeme = pair.1.toList ++ gap ++ pair.2.toList := by
  constructor
  · rintro (⟨words⟩ | @⟨k, head, tail, gap, words, blank⟩)
    · exact .inl (exists_words_singleton_iff.mp ⟨_, words⟩)
    · refine .inr ⟨gap, blank, _, exists_words_pair_iff.mp ⟨k, words⟩, ?_⟩
      rw [String.toList_ofList, String.toList_ofList]
  · rintro (h | ⟨gap, blank, ⟨head, tail⟩, h, rfl⟩)
    · obtain ⟨k, words⟩ := exists_words_singleton_iff.mpr h
      exact .single words
    · obtain ⟨k, words⟩ := @exists_words_pair_iff head.toList tail.toList |>.mpr (by simpa using h)
      exact .compound words blank

/-! ### Longest lexemes -/

theorem longest_keyword {lexeme rest longer : List Char} (h : IsKeyword lexeme)
    (hStop : StopsAt isWordChar rest) (hLonger : IsKeyword longer)
    (hPrefix : longer <+: lexeme ++ rest) : longer.length ≤ lexeme.length := by
  have hChars : ∀ {k : Keyword} {word : List Char}, word ∈ k.words →
      ∀ c ∈ word, isWordChar c = true :=
    fun hWord _ hc => isWordChar_of_mem (isWord_of_mem_words hWord) hc
  cases hLonger with
  | @single k _ words => exact length_le_of_run hStop (hChars (k := k) (by simp [words])) hPrefix
  | @compound k head tail gap words blank =>
    obtain ⟨back, hText⟩ := hPrefix
    rw [List.append_assoc, List.append_assoc] at hText
    have hHead : ∀ c ∈ head, isWordChar c = true := hChars (k := k) (by simp [words])
    obtain ⟨-, hTail⟩ := isWord_of_words_pair words
    cases h with
    | @single l _ words' =>
      -- The head would be the whole keyword, but it is none by itself.
      obtain ⟨rfl, -⟩ := run_append_inj hHead (stopsAt_of_isBlankRun blank)
        (hChars (k := l) (by simp [words'])) hStop hText
      have hSome := (ofChars?_isSome_iff_of_isWord (isWord_of_words words')).mpr ⟨l, words'⟩
      rw [ofChars?_head words] at hSome
      cases hSome
    | @compound l head' tail' gap' words' blank' =>
      obtain ⟨-, hTail'⟩ := isWord_of_words_pair words'
      rw [List.append_assoc, List.append_assoc] at hText
      obtain ⟨rfl, hAfter⟩ := run_append_inj hHead (stopsAt_of_isBlankRun blank)
        (hChars (k := l) (by simp [words'])) (stopsAt_of_isBlankRun blank') hText
      obtain ⟨rfl, hBack⟩ := run_append_inj blank.2 (stopsAt_isBlank_of_isWord hTail) blank'.2
        (stopsAt_isBlank_of_isWord hTail') hAfter
      have hLe := length_le_of_run hStop (fun c hc => isWordChar_of_mem hTail hc) ⟨back, hBack⟩
      simp only [List.length_append]
      omega

theorem longest_unsigned {number rest longer : List Char} (h : IsUnsigned number)
    (hEnds : EndsNumber number rest) (hLonger : IsUnsigned longer)
    (hPrefix : longer <+: number ++ rest) : longer.length ≤ number.length := by
  have hPoint : ∀ cs : List Char, StopsAt Char.isDigit ('.' :: cs) :=
    fun _ => stopsAt_cons.mpr (by decide)
  cases hLonger with
  | whole isDigits =>
    cases h with
    | whole _ => exact length_le_of_run hEnds.1 isDigits.2 hPrefix
    | @fraction digits decimals _ _ =>
      rw [List.append_assoc, List.cons_append] at hPrefix
      have := length_le_of_run (hPoint _) isDigits.2 hPrefix
      rw [List.length_append]
      omega
  | @fraction digits decimals isDigits areDecimals =>
    obtain ⟨back, hText⟩ := hPrefix
    rw [List.append_assoc, List.cons_append] at hText
    cases h with
    | whole isDigits' =>
      obtain ⟨rfl, rfl⟩ := run_append_inj isDigits.2 (hPoint _) isDigits'.2 hEnds.1 hText
      have hFraction : HasFraction ('.' :: (decimals ++ back)) := by
        obtain ⟨hNonempty, hAll⟩ := areDecimals
        cases decimals with
        | nil => exact absurd rfl hNonempty
        | cons c decimals => exact ⟨c, _, rfl, hAll c List.mem_cons_self⟩
      exact absurd hFraction (hEnds.2 (point_not_mem_of_isDigits isDigits'))
    | @fraction digits' decimals' isDigits' areDecimals' =>
      rw [List.append_assoc, List.cons_append] at hText
      obtain ⟨rfl, hAfter⟩ := run_append_inj isDigits.2 (hPoint _) isDigits'.2 (hPoint _) hText
      have hLe := length_le_of_run hEnds.1 areDecimals.2 ⟨back, (List.cons.inj hAfter).2⟩
      simp only [List.length_append, List.length_cons]
      omega

theorem longest_number {number rest longer : List Char} (h : IsNumber number)
    (hEnds : EndsNumber number rest) (hLonger : IsNumber longer)
    (hPrefix : longer <+: number ++ rest) : longer.length ≤ number.length := by
  have hApart : ∀ {unsigned cs ds : List Char}, IsUnsigned unsigned → unsigned ++ cs ≠ '-' :: ds := by
    rintro unsigned cs ds hUnsigned hText
    obtain ⟨c, _, rfl, hc⟩ := exists_digit_of_isUnsigned hUnsigned
    rw [List.cons_append] at hText
    rw [(List.cons.inj hText).1] at hc
    cases hc
  cases h with
  | plain isUnsigned =>
    cases hLonger with
    | plain isUnsigned' => exact longest_unsigned isUnsigned hEnds isUnsigned' hPrefix
    | negative _ =>
      obtain ⟨back, hText⟩ := hPrefix
      exact absurd hText.symm (hApart isUnsigned)
  | @negative number isUnsigned =>
    have hEnds' : EndsNumber number rest :=
      ⟨hEnds.1, fun hPoint => hEnds.2 (by simpa using hPoint)⟩
    cases hLonger with
    | plain isUnsigned' =>
      obtain ⟨back, hText⟩ := hPrefix
      exact absurd hText (hApart isUnsigned')
    | negative isUnsigned' =>
      rw [List.cons_append, List.cons_prefix_cons] at hPrefix
      exact Nat.succ_le_succ (longest_unsigned isUnsigned hEnds' isUnsigned' hPrefix.2)

end Lexeme

namespace TokenKind

variable {kind : TokenKind} {lexeme rest longer : List Char}

/-- Where a kind has no condition on what follows, its lexeme at a place is unique. -/
theorem length_eq_of_matches {back : List Char} (h : kind.Class lexeme) (hEnds : kind.Ends lexeme rest)
    (hLonger : kind.Class longer) (hEnds' : kind.Ends longer back)
    (hText : longer ++ back = lexeme ++ rest) : longer.length = lexeme.length := by
  have hMatch := matchLength?_append_iff.mpr ⟨shape_of_class h, hEnds⟩
  rw [← hText, matchLength?_append_iff.mpr ⟨shape_of_class hLonger, hEnds'⟩] at hMatch
  exact Option.some_inj.mp hMatch

theorem Stands.longest (h : kind.Stands lexeme rest) (hLonger : kind.Class longer)
    (hPrefix : longer <+: lexeme ++ rest) : longer.length ≤ lexeme.length := by
  obtain ⟨hClass, hEnds, -⟩ := h
  have hWord : IsWord longer → StopsAt isWordChar rest → longer.length ≤ lexeme.length :=
    fun hWord hStop => length_le_of_run hStop (fun _ hc => isWordChar_of_mem hWord hc) hPrefix
  cases kind with
  | keyword => exact longest_keyword hClass hEnds hLonger hPrefix
  | identifier => exact hWord hLonger.1 hEnds
  | booleanLiteral => exact hWord ((by decide : ∀ word ∈ truthWords, IsWord word) _ hLonger) hEnds
  | nullLiteral => exact hWord ((by decide : ∀ word ∈ nullWords, IsWord word) _ hLonger) hEnds
  | connective =>
    exact hWord ((by decide : ∀ word ∈ connectiveWords, IsWord word) _ hLonger) hEnds
  | numberLiteral => exact longest_number hClass hEnds hLonger hPrefix
  | comparator => simpa using hEnds _ hLonger (by simpa using hPrefix)
  | stringLiteral | dateLiteral | comma | parenOpen | parenClose | terminator =>
    obtain ⟨back, hText⟩ := hPrefix
    exact Nat.le_of_eq (length_eq_of_matches hClass hEnds hLonger trivial hText)
  | endOfInput => cases hClass

end TokenKind

/-! ### Tokens in their text -/

variable {offset : Nat} {cs : List Char} {tokens : List Token}

/-- A token cuts the text in three: the lexeme stands before the last part, which is scanned too. -/
theorem Scanned.exists_split (h : Scanned offset cs tokens) {t : Token} (ht : t ∈ tokens) :
    ∃ front after later, cs = front ++ t.lexeme.toList ++ after ∧
      t.offset = offset + Text.byteLength front ∧ t.kind.Stands t.lexeme.toList after ∧
      Scanned (t.offset + t.lexeme.utf8ByteSize) after later := by
  induction h with
  | done => cases ht
  | @blank offset c cs tokens isBlank rest ih =>
    obtain ⟨front, after, later, rfl, hOffset, hStands, hLater⟩ := ih ht
    refine ⟨c :: front, after, later, rfl, ?_, hStands, hLater⟩
    rw [hOffset, Text.byteLength_cons, Nat.add_assoc]
  | @token offset kind lexeme cs tokens stands rest ih =>
    rcases List.mem_cons.mp ht with rfl | ht
    · exact ⟨[], cs, tokens, by simp, rfl, by simpa using stands,
        by rwa [Text.utf8ByteSize_ofList]⟩
    · obtain ⟨front, after, later, rfl, hOffset, hStands, hLater⟩ := ih ht
      refine ⟨lexeme ++ front, after, later, by simp, ?_, hStands, hLater⟩
      rw [hOffset, Text.byteLength_append, Nat.add_assoc]

/-- A character that is neither blank nor the first of a lexeme cannot come next. -/
theorem Scanned.start {c : Char} (h : Scanned offset (c :: cs) tokens) :
    Text.isBlank c = true ∨ (ofStart? c).isSome = true := by
  generalize hText : c :: cs = text at h
  cases h with
  | done => cases hText
  | blank isBlank _ =>
    cases hText
    exact .inl isBlank
  | @token _ kind lexeme cs tokens stands _ =>
    have hStart := ofStart?_of_shape (shape_of_class stands.isClass)
    cases lexeme with
    | nil => cases hStart
    | cons d lexeme =>
      cases hText
      exact .inr (Option.isSome_iff_exists.mpr ⟨_, hStart⟩)

/-- A token as it stands in a text before the characters `after`: of its class, and as long as it
can be. -/
structure Token.Recognized (t : Token) (after : List Char) : Prop where
  isClass : t.kind.Class t.lexeme.toList
  keyword : t.kind = .keyword → t.lexeme ∈ singleKeywords ∨
    ∃ gap, IsBlankRun gap ∧ ∃ pair ∈ compoundKeywords,
      t.lexeme.toList = pair.1.toList ++ gap ++ pair.2.toList
  identifier : t.kind = .identifier → IsWord t.lexeme.toList ∧ t.lexeme ∉ reservedWords
  alone : t.kind = .identifier → ∀ gap tail later, after = gap ++ tail ++ later → IsBlankRun gap →
    StopsAt isWordChar later → (t.lexeme, String.ofList tail) ∉ compoundKeywords
  endsWord : t.kind.genus = .identifier → StopsAt isWordChar after
  endsNumber : t.kind = .numberLiteral → StopsAt Char.isDigit after ∧ ¬ HasFraction after
  longest : ∀ longer, t.kind.Class longer → longer <+: t.lexeme.toList ++ after →
    longer.length ≤ t.lexeme.length

theorem Token.recognized_of_stands {t : Token} {after : List Char} {later : List Token}
    (h : t.kind.Stands t.lexeme.toList after) (hLater : Scanned offset after later) :
    t.Recognized after where
  isClass := h.isClass
  keyword hKind := by
    have hClass := h.isClass
    rw [hKind] at hClass
    simpa using isKeyword_iff.mp hClass
  identifier hKind := by
    have hClass := h.isClass
    rw [hKind] at hClass
    exact ⟨hClass.1, by simpa using mt isReserved_iff_mem.mpr hClass.2⟩
  alone hKind gap tail back hAfter hGap hStop hPair := by
    have hClass := h.isClass
    have hEnds := h.ends
    rw [hKind] at hClass hEnds
    obtain ⟨k, hWords⟩ := @exists_words_pair_iff t.lexeme.toList tail |>.mpr (by simpa using hPair)
    exact h.alone hKind ((startsKeyword_iff hClass hEnds).mpr
      ⟨k, gap, tail, back, hAfter, hWords, hGap, hStop⟩)
  endsWord hGenus := by
    have hEnds := h.ends
    generalize t.kind = kind at hGenus hEnds
    cases kind <;> first | exact hEnds | cases hGenus
  endsNumber hKind := by
    have hEnds := h.ends
    rw [hKind] at hEnds
    refine ⟨hEnds.1, ?_⟩
    rintro ⟨c, cs, rfl, -⟩
    exact absurd hLater.start (by decide)
  longest longer hLonger hPrefix := by
    rw [← String.length_toList]
    exact h.longest hLonger hPrefix

/-- Every token before the end mark stands at its offset and is recognized there. -/
theorem recognized_of_tokenize {s : String} {ts : List Token} (h : tokenize s = .ok ts) {t : Token}
    (ht : t ∈ ts) (hKind : t.kind ≠ .endOfInput) :
    ∃ front after, s.toList = front ++ t.lexeme.toList ++ after ∧
      t.offset = Text.byteLength front ∧ t.Recognized after := by
  obtain ⟨tokens, hScanned, rfl⟩ := tokenize_iff.mp h
  rcases List.mem_append.mp ht with ht | ht
  · obtain ⟨front, after, later, hText, hOffset, hStands, hLater⟩ := hScanned.exists_split ht
    rw [Nat.zero_add] at hOffset
    exact ⟨front, after, hText, hOffset, Token.recognized_of_stands hStands hLater⟩
  · rw [List.mem_singleton.mp ht] at hKind
    exact absurd rfl hKind

theorem recognized_of_tokenize_compound :
    ∃ front after, "NOT x1>=-2.50 PRIMARY\t KEY('é')".toList =
        front ++ "PRIMARY\t KEY".toList ++ after ∧
      14 = Text.byteLength front ∧ Token.Recognized ⟨.keyword, "PRIMARY\t KEY", 14⟩ after :=
  @recognized_of_tokenize "NOT x1>=-2.50 PRIMARY\t KEY('é')"
    [⟨.identifier, "NOT", 0⟩, ⟨.identifier, "x1", 4⟩, ⟨.comparator, ">=", 6⟩,
      ⟨.numberLiteral, "-2.50", 8⟩, ⟨.keyword, "PRIMARY\t KEY", 14⟩, ⟨.parenOpen, "(", 26⟩,
      ⟨.stringLiteral, "'é'", 27⟩, ⟨.parenClose, ")", 31⟩, Token.endAt 32]
    (by decide +kernel) ⟨.keyword, "PRIMARY\t KEY", 14⟩ (by decide) (by decide)

end SqlStore
