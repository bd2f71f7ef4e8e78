import SqlStore.Proofs.Token.Recognizers

/-!
# Priority among kinds

Two kinds match at the same place only if one is a special case of the other: the reserved words are
words, and a date is a string. So the order in which the kinds are tried does not matter beyond
special cases before general ones, and `firstMatch?_append_iff` says, for every such order, which
lexeme is cut off a text and how it is classified.
-/
namespace SqlStore.TokenKind
open Lexeme
set_option autoImplicit false

/-! ### Matches of one kind -/

/-- The lexemes that a kind would take if it were the only one. -/
def Shape : TokenKind → List Char → Prop
  | identifier => IsWord
  | stringLiteral => IsQuoted
  | kind => kind.Class

/-- The lexeme cannot be continued to a longer one of its kind. -/
def Ends : TokenKind → List Char → List Char → Prop
  | keyword, _, rest | identifier, _, rest | booleanLiteral, _, rest | nullLiteral, _, rest
  | connective, _, rest => StopsAt isWordChar rest
  | numberLiteral, number, rest => EndsNumber number rest
  | comparator, op, rest => EndsComparator op rest
  | _, _, _ => True

theorem wordAmong?_append_iff_of_words {choices : List String} {words : List (List Char)}
    (hWords : choices = words.map String.ofList) (hAll : ∀ word ∈ words, IsWord word)
    {word rest : List Char} :
    wordAmong? choices (word ++ rest) = some word.length ↔
      word ∈ words ∧ StopsAt isWordChar rest := by
  have hMem : String.ofList word ∈ choices ↔ word ∈ words := by
    simp [hWords, String.ofList_inj]
  rw [wordAmong?_append_iff, hMem]
  constructor
  · rintro ⟨-, hStop, hWord⟩
    exact ⟨hWord, hStop⟩
  · rintro ⟨hWord, hStop⟩
    exact ⟨hAll word hWord, hStop, hWord⟩

theorem matchLength?_append_iff {kind : TokenKind} {lexeme rest : List Char} :
    kind.matchLength? (lexeme ++ rest) = some lexeme.length ↔
      kind.Shape lexeme ∧ kind.Ends lexeme rest := by
  cases kind with
  | keyword => exact keyword?_append_iff
  | identifier => exact word?_append_iff
  | stringLiteral => exact string?_append_iff.trans (and_iff_left trivial).symm
  | numberLiteral => exact number?_append_iff
  | booleanLiteral => exact wordAmong?_append_iff_of_words (by decide) (by decide)
  | dateLiteral => exact date?_append_iff.trans (and_iff_left trivial).symm
  | nullLiteral => exact wordAmong?_append_iff_of_words (by decide) (by decide)
  | comparator => exact comparator?_append_iff
  | connective => exact wordAmong?_append_iff_of_words (by decide) (by decide)
  | comma | parenOpen | parenClose | terminator =>
    exact single?_append_iff.trans (and_iff_left trivial).symm
  | endOfInput =>
    constructor
    · rintro ⟨⟩
    · rintro ⟨⟨⟩, -⟩

/-! ### Kinds that match together -/

/-- The kind of which a kind is a special case, or the kind itself. -/
def genus : TokenKind → TokenKind
  | keyword | booleanLiteral | nullLiteral | connective => identifier
  | dateLiteral => stringLiteral
  | kind => kind

/-- What a character at the front of a lexeme says about its kind. -/
def ofStart? (c : Char) : Option TokenKind :=
  if isWordStart c then some identifier
  else if c.isDigit then some numberLiteral
  else
    match c with
    | '-' => some numberLiteral
    | '\'' => some stringLiteral
    | '!' | '<' | '=' | '>' => some comparator
    | ',' => some comma
    | '(' => some parenOpen
    | ')' => some parenClose
    | ';' => some terminator
    | _ => none

theorem ofStart?_of_isDigit {c : Char} (h : c.isDigit = true) : ofStart? c = some numberLiteral := by
  have hWord : isWordStart c = false := by
    rw [isDigit_iff] at h
    simp only [isWordStart, Bool.or_eq_false_iff, beq_eq_false_iff_ne]
    constructor
    · rw [Bool.eq_false_iff, ne_eq, isAlpha_iff]
      omega
    · rintro rfl
      simp at h
  simp [ofStart?, hWord, h]

theorem isBlank_of_ofStart? {c : Char} {kind : TokenKind} (h : ofStart? c = some kind) :
    Text.isBlank c = false := by
  unfold ofStart? at h
  split at h
  · rename_i hStart
    exact isBlank_of_isWordChar (isWordChar_of_isWordStart hStart)
  · split at h
    · rename_i hDigit
      exact isBlank_of_isDigit hDigit
    · split at h
      all_goals first | decide | cases h

/-- The maximal word at the front of a match of a kind of words. -/
def heads : TokenKind → List (List Char)
  | keyword => Keyword.all.filterMap (·.words.head?)
  | booleanLiteral => truthWords
  | nullLiteral => nullWords
  | connective => connectiveWords
  | _ => []

theorem mem_heads_of_words {k : Keyword} {head : List Char} (h : k.words.head? = some head) :
    head ∈ heads keyword :=
  List.mem_filterMap.mpr ⟨k, k.mem_all, h⟩

theorem keyword?_head {cs : List Char} {n : Nat} (h : keyword? cs = some n) :
    ∃ m ≤ n, word? cs = some m ∧ cs.take m ∈ heads keyword := by
  obtain ⟨m, hWord, h⟩ := Option.bind_eq_some_iff.mp h
  obtain ⟨word, rest, rfl, rfl⟩ := exists_front (word?_bounds hWord).2
  refine ⟨word.length, ?_, hWord, ?_⟩
  · split at h
    · cases h
      exact Nat.le_refl _
    · split at h
      · exact Nat.le_of_lt (compound?_bounds h).1
      · cases h
  · rw [List.take_left] at h ⊢
    split at h
    · rename_i hKeyword
      obtain ⟨k, hWords⟩ :=
        (ofChars?_isSome_iff_of_isWord (word?_append_iff.mp hWord).1).mp hKeyword
      exact mem_heads_of_words (by rw [hWords]; rfl)
    · split at h
      · rename_i hHead
        obtain ⟨k, tail, hWords⟩ := isCompoundHead_iff.mp hHead
        exact mem_heads_of_words (by rw [hWords]; rfl)
      · cases h

theorem wordAmong?_head {choices : List String} {cs : List Char} {n : Nat}
    (h : wordAmong? choices cs = some n) :
    word? cs = some n ∧ cs.take n ∈ choices.map String.toList := by
  obtain ⟨hWord, hChoice⟩ := Option.filter_eq_some_iff.mp h
  refine ⟨hWord, List.mem_map.mpr ⟨_, List.contains_iff_mem.mp hChoice, String.toList_ofList⟩⟩

theorem exists_head {kind : TokenKind} {cs : List Char} {n : Nat} (hGenus : kind.genus = identifier)
    (hSpecial : kind ≠ identifier) (h : kind.matchLength? cs = some n) :
    ∃ m ≤ n, word? cs = some m ∧ cs.take m ∈ heads kind := by
  cases kind with
  | keyword => exact keyword?_head h
  | booleanLiteral | nullLiteral | connective => exact ⟨n, Nat.le_refl n, wordAmong?_head h⟩
  | identifier => exact absurd rfl hSpecial
  | _ => cases hGenus

theorem isQuoted_of_isDate {date : List Char} (h : IsDate date) : IsQuoted date := by
  obtain ⟨hFits, hLength⟩ := h
  match date, hLength with
  | [q, a, b, c, d, m, e, f, n, g, i, r], _ =>
    simp only [datePattern, fits, Bool.and_eq_true, beq_iff_eq, if_neg (by decide : ¬ '\'' = 'd'),
      if_neg (by decide : ¬ '-' = 'd'), if_true] at hFits
    obtain ⟨rfl, ha, hb, hc, hd, rfl, he, hf, rfl, hg, hi, rfl, -⟩ := hFits
    refine ⟨[a, b, c, d, '-', e, f, '-', g, i], rfl, ?_⟩
    have hDigit : ∀ x : Char, x.isDigit = true → '\'' ≠ x := by
      rintro x hx rfl
      cases hx
    simp [hDigit _ ha, hDigit _ hb, hDigit _ hc, hDigit _ hd, hDigit _ he, hDigit _ hf, hDigit _ hg,
      hDigit _ hi]

theorem ofStart?_of_isWord {word : List Char} (h : IsWord word) :
    word.head?.bind ofStart? = some identifier := by
  cases word with
  | nil => cases h
  | cons c word => simp [ofStart?, h.1]

theorem ofStart?_of_isUnsigned {number : List Char} (h : IsUnsigned number) :
    number.head?.bind ofStart? = some numberLiteral := by
  obtain ⟨c, cs, rfl, hc⟩ := exists_digit_of_isUnsigned h
  exact ofStart?_of_isDigit hc

theorem ofStart?_of_isQuoted {text : List Char} (h : IsQuoted text) :
    text.head?.bind ofStart? = some stringLiteral := by
  obtain ⟨body, rfl, -⟩ := h
  rfl

theorem ofStart?_of_isKeyword {lexeme : List Char} (h : IsKeyword lexeme) :
    lexeme.head?.bind ofStart? = some identifier := by
  cases h with
  | single words => exact ofStart?_of_isWord (isWord_of_words words)
  | @compound k head tail gap words blank =>
    obtain ⟨hHead, -⟩ := isWord_of_words_pair words
    have hStart := ofStart?_of_isWord hHead
    cases head with
    | nil => cases hHead
    | cons c head => exact hStart

theorem ofStart?_of_shape {kind : TokenKind} {lexeme : List Char} (h : kind.Shape lexeme) :
    lexeme.head?.bind ofStart? = some kind.genus := by
  cases kind with
  | keyword => exact ofStart?_of_isKeyword h
  | identifier => exact ofStart?_of_isWord h
  | stringLiteral => exact ofStart?_of_isQuoted h
  | dateLiteral => exact ofStart?_of_isQuoted (isQuoted_of_isDate h)
  | numberLiteral =>
    cases h with
    | plain isUnsigned => exact ofStart?_of_isUnsigned isUnsigned
    | negative isUnsigned => rfl
  | booleanLiteral =>
    exact (by decide : ∀ word ∈ truthWords, word.head?.bind ofStart? = _) lexeme h
  | nullLiteral =>
    exact (by decide : ∀ word ∈ nullWords, word.head?.bind ofStart? = _) lexeme h
  | connective =>
    exact (by decide : ∀ word ∈ connectiveWords, word.head?.bind ofStart? = _) lexeme h
  | comparator =>
    have hStart : ∀ op ∈ comparators, op.toList.head?.bind ofStart? = some comparator := by decide
    simpa [genus] using hStart _ h
  | comma | parenOpen | parenClose | terminator =>
    cases h
    rfl
  | endOfInput => cases h

theorem shape_of_matchLength? {kind : TokenKind} {cs : List Char} {n : Nat}
    (h : kind.matchLength? cs = some n) :
    ∃ lexeme rest, cs = lexeme ++ rest ∧ lexeme.length = n ∧ kind.Shape lexeme ∧
      kind.Ends lexeme rest := by
  obtain ⟨lexeme, rest, rfl, rfl⟩ := exists_front (matchLength?_bounds h).2
  exact ⟨lexeme, rest, rfl, rfl, matchLength?_append_iff.mp h⟩

theorem ofStart?_of_matchLength? {kind : TokenKind} {cs : List Char} {n : Nat}
    (h : kind.matchLength? cs = some n) : cs.head?.bind ofStart? = some kind.genus := by
  obtain ⟨lexeme, rest, rfl, -, hShape, -⟩ := shape_of_matchLength? h
  have hStart := ofStart?_of_shape hShape
  cases lexeme with
  | nil => cases hStart
  | cons c lexeme => exact hStart

/-- Two kinds that match at one place are a special case and its general kind. -/
theorem genus_of_matches {k l : TokenKind} {cs : List Char} {m n : Nat}
    (hk : k.matchLength? cs = some m) (hl : l.matchLength? cs = some n) (hNe : k ≠ l) :
    k.genus = l ∨ l.genus = k := by
  have hGenus : k.genus = l.genus :=
    Option.some_inj.mp ((ofStart?_of_matchLength? hk).symm.trans (ofStart?_of_matchLength? hl))
  by_cases hGeneralK : k.genus = k
  · exact .inr (hGenus.symm.trans hGeneralK)
  by_cases hGeneralL : l.genus = l
  · exact .inl (hGenus.trans hGeneralL)
  -- Two special cases of one kind are words, and the maximal word decides between them.
  have hWords : ∀ k ∈ all, ∀ l ∈ all, k.genus = l.genus → k.genus ≠ k → l.genus ≠ l → k ≠ l →
      k.genus = identifier := by decide
  have hWord := hWords k k.mem_all l l.mem_all hGenus hGeneralK hGeneralL hNe
  have hSpecialK : k ≠ identifier := by
    rintro rfl
    exact hGeneralK hWord
  have hSpecialL : l ≠ identifier := by
    rintro rfl
    exact hGeneralL (hGenus.symm.trans hWord)
  obtain ⟨a, -, hWordK, hHeadK⟩ := exists_head hWord hSpecialK hk
  obtain ⟨b, -, hWordL, hHeadL⟩ := exists_head (hGenus.symm.trans hWord) hSpecialL hl
  obtain rfl := Option.some_inj.mp (hWordK.symm.trans hWordL)
  have hApart : ∀ k ∈ all, ∀ l ∈ all, ∀ word ∈ heads k, word ∈ heads l → k = l := by
    decide +kernel
  exact absurd (hApart k k.mem_all l l.mem_all _ hHeadK hHeadL) hNe

/-! ### The first match -/

/-- An order of all kinds in which no kind stands before one of its special cases. -/
structure IsPriority (order : List TokenKind) : Prop where
  complete : ∀ kind : TokenKind, kind ≠ endOfInput → kind ∈ order
  special : order.Pairwise fun earlier later => later.genus ≠ earlier

theorem isPriority_priority : IsPriority priority where
  complete kind := by cases kind <;> decide
  special := by decide

variable {order : List TokenKind}

theorem firstMatch?_eq_some_iff (hOrder : IsPriority order) {kind : TokenKind} {cs : List Char}
    {n : Nat} :
    firstMatch? order cs = some (kind, n) ↔
      kind.matchLength? cs = some n ∧
        ∀ special, special.genus = kind → special ≠ kind → special.matchLength? cs = none := by
  have hSound : ∀ {kind : TokenKind} {n : Nat}, firstMatch? order cs = some (kind, n) →
      kind.matchLength? cs = some n ∧
        ∀ special, special.genus = kind → special ≠ kind → special.matchLength? cs = none := by
    intro kind n h
    refine ⟨(matchLength?_of_firstMatch? h).2, fun special hGenus hNe => ?_⟩
    obtain ⟨before, k, after, hSplit, hMatch, hMissed⟩ := List.findSome?_eq_some_iff.mp h
    obtain ⟨m, -, hPair⟩ := Option.map_eq_some_iff.mp hMatch
    cases hPair
    have hSpecial := hOrder.special
    by_cases hEnd : special = endOfInput
    · rw [hEnd]
      rfl
    have hMem := hOrder.complete special hEnd
    rw [hSplit] at hMem hSpecial
    rw [List.pairwise_append, List.pairwise_cons] at hSpecial
    rcases List.mem_append.mp hMem with hBefore | hAfter
    · exact Option.map_eq_none_iff.mp (hMissed special hBefore)
    · rcases List.mem_cons.mp hAfter with hHere | hAfter
      · exact absurd hHere hNe
      · exact absurd hGenus (hSpecial.2.1.1 special hAfter)
  refine ⟨hSound, ?_⟩
  rintro ⟨hMatch, hNone⟩
  have hEnd : kind ≠ endOfInput := by
    rintro rfl
    cases hMatch
  have hSome : (firstMatch? order cs).isSome = true :=
    List.findSome?_isSome_iff.mpr ⟨kind, hOrder.complete kind hEnd, by rw [hMatch]; rfl⟩
  obtain ⟨⟨found, m⟩, hFound⟩ := Option.isSome_iff_exists.mp hSome
  obtain ⟨hFoundMatch, hFoundNone⟩ := hSound hFound
  by_cases hNe : found = kind
  · rw [hNe, hMatch] at hFoundMatch
    rw [hFound, hNe, Option.some_inj.mp hFoundMatch]
  · rcases genus_of_matches hFoundMatch hMatch hNe with hGenus | hGenus
    · rw [hNone found hGenus hNe] at hFoundMatch
      cases hFoundMatch
    · rw [hFoundNone kind hGenus (Ne.symm hNe)] at hMatch
      cases hMatch

/-! ### Classes -/

/-- The word and some of the characters after it are a keyword, which ends there. -/
def StartsKeyword (word rest : List Char) : Prop :=
  ∃ front back, rest = front ++ back ∧ IsKeyword (word ++ front) ∧ StopsAt isWordChar back

/-- A lexeme is of its class, could not go on, and is not the first word of a keyword. -/
structure Stands (kind : TokenKind) (lexeme rest : List Char) : Prop where
  isClass : kind.Class lexeme
  ends : kind.Ends lexeme rest
  alone : kind = identifier → ¬ StartsKeyword lexeme rest

theorem isReserved_iff {word : List Char} : IsReserved word ↔
    (∃ k : Keyword, k.words = [word]) ∨ word ∈ truthWords ∨ word ∈ nullWords ∨
      word ∈ connectiveWords := by
  refine or_congr_left ⟨?_, ?_⟩
  · rintro ⟨k, -, hWords⟩
    exact ⟨k, hWords⟩
  · rintro ⟨k, hWords⟩
    exact ⟨k, k.mem_all, hWords⟩

theorem shape_of_class {kind : TokenKind} {lexeme : List Char} (h : kind.Class lexeme) :
    kind.Shape lexeme := by
  cases kind with
  | identifier => exact h.1
  | stringLiteral =>
    obtain ⟨body, hBody, hQuote, -⟩ := h
    exact ⟨body, hBody, hQuote⟩
  | _ => exact h

/-- No special case of an identifier matches where the identifier stands. -/
theorem alone_of_special {word rest : List Char} (hWord : IsWord word)
    (hStop : StopsAt isWordChar rest)
    (h : ∀ special, genus special = identifier → special ≠ identifier →
      special.matchLength? (word ++ rest) = none) :
    IsIdentifier word ∧ ¬ StartsKeyword word rest := by
  have hStarts : ¬ StartsKeyword word rest := by
    rintro ⟨front, back, rfl, hKeyword, hEnd⟩
    have hMatch := keyword?_append_iff.mpr ⟨hKeyword, hEnd⟩
    have hNone := h keyword rfl (by decide)
    rw [← List.append_assoc] at hNone
    rw [matchLength?, hMatch] at hNone
    cases hNone
  refine ⟨⟨hWord, fun hReserved => ?_⟩, hStarts⟩
  have hApart : ∀ special, genus special = identifier → special ≠ identifier →
      special.Shape word → special.Ends word rest → False := by
    intro special hGenus hNe hShape hEnds
    have hNone := h special hGenus hNe
    rw [matchLength?_append_iff.mpr ⟨hShape, hEnds⟩] at hNone
    cases hNone
  rcases isReserved_iff.mp hReserved with ⟨k, hWords⟩ | hMem | hMem | hMem
  · exact hStarts ⟨[], rest, rfl, by rw [List.append_nil]; exact .single hWords, hStop⟩
  · exact hApart booleanLiteral rfl (by decide) hMem hStop
  · exact hApart nullLiteral rfl (by decide) hMem hStop
  · exact hApart connective rfl (by decide) hMem hStop

theorem special_of_alone {word rest : List Char} (hIdentifier : IsIdentifier word)
    (hStop : StopsAt isWordChar rest) (hAlone : ¬ StartsKeyword word rest) {special : TokenKind}
    (hGenus : special.genus = identifier) (hNe : special ≠ identifier) :
    special.matchLength? (word ++ rest) = none := by
  rw [Option.eq_none_iff_forall_ne_some]
  intro n h
  obtain ⟨m, hLe, hWord, -⟩ := exists_head hGenus hNe h
  rw [word?_append_iff.mpr ⟨hIdentifier.1, hStop⟩] at hWord
  cases hWord
  obtain ⟨lexeme, back, hText, rfl, hShape, hEnds⟩ := shape_of_matchLength? h
  obtain ⟨front, rfl⟩ : word <+: lexeme :=
    List.prefix_of_prefix_length_le ⟨rest, hText⟩ ⟨back, rfl⟩ hLe
  have hRest : rest = front ++ back := by
    rw [List.append_assoc] at hText
    exact List.append_cancel_left hText
  have hReserved : ∀ words : List (List Char), (∀ w ∈ words, IsWord w) →
      (∀ w ∈ words, IsReserved w) → word ++ front ∉ words := by
    intro words hWords hAll hMem
    have hFront : front = [] := by
      cases front with
      | nil => rfl
      | cons c front =>
        have hc := isWordChar_of_mem (hWords _ hMem) (List.mem_append_right word List.mem_cons_self)
        rw [hRest, List.cons_append, stopsAt_cons, hc] at hStop
        cases hStop
    rw [hFront, List.append_nil] at hMem
    exact hIdentifier.2 (hAll word hMem)
  cases special with
  | keyword => exact hAlone ⟨front, back, hRest, hShape, hEnds⟩
  | booleanLiteral => exact hReserved truthWords (by decide) (by decide) hShape
  | nullLiteral => exact hReserved nullWords (by decide) (by decide) hShape
  | connective => exact hReserved connectiveWords (by decide) (by decide) hShape
  | identifier => exact hNe rfl
  | _ => cases hGenus

theorem date?_of_isString {string rest : List Char} (h : IsString string) :
    date? (string ++ rest) = none := by
  rw [Option.eq_none_iff_forall_ne_some]
  intro n hDate
  obtain ⟨body, hBody, hQuote, hNoDate⟩ := h
  obtain ⟨date, back, hText, rfl⟩ := exists_front (date?_bounds hDate).2
  rw [hText] at hDate
  have hIsDate := date?_append_iff.mp hDate
  have hString : string? (date ++ back) = some date.length :=
    string?_append_iff.mpr (isQuoted_of_isDate hIsDate)
  rw [← hText, string?_append_iff.mpr ⟨body, hBody, hQuote⟩] at hString
  obtain ⟨rfl, -⟩ := List.append_inj hText (Option.some_inj.mp hString)
  exact hNoDate hIsDate

theorem firstMatch?_append_iff (hOrder : IsPriority order) {kind : TokenKind}
    {lexeme rest : List Char} :
    firstMatch? order (lexeme ++ rest) = some (kind, lexeme.length) ↔ kind.Stands lexeme rest := by
  rw [firstMatch?_eq_some_iff hOrder, matchLength?_append_iff]
  constructor
  · rintro ⟨⟨hShape, hEnds⟩, hNone⟩
    cases kind with
    | identifier =>
      obtain ⟨hClass, hAlone⟩ := alone_of_special hShape hEnds hNone
      exact ⟨hClass, hEnds, fun _ => hAlone⟩
    | stringLiteral =>
      obtain ⟨body, hBody, hQuote⟩ := hShape
      refine ⟨⟨body, hBody, hQuote, fun hDate => ?_⟩, hEnds, nofun⟩
      have hDateNone := hNone dateLiteral rfl (by decide)
      rw [matchLength?, date?_append_iff.mpr hDate] at hDateNone
      cases hDateNone
    | _ => exact ⟨hShape, hEnds, nofun⟩
  · rintro ⟨hClass, hEnds, hAlone⟩
    refine ⟨⟨shape_of_class hClass, hEnds⟩, fun special hGenus hNe => ?_⟩
    have hKinds : ∀ special ∈ all, special.genus ≠ special →
        special.genus = identifier ∨ special = dateLiteral := by decide
    rcases hKinds special special.mem_all (by rw [hGenus]; exact hNe.symm) with hWord | rfl
    · obtain rfl := hWord.symm.trans hGenus
      exact special_of_alone hClass hEnds (hAlone rfl) hGenus hNe
    · obtain rfl : stringLiteral = kind := hGenus
      exact date?_of_isString hClass

end SqlStore.TokenKind
