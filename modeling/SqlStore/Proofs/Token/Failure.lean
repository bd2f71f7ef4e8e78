import SqlStore.Proofs.Token.Front

/-!
# Where scanning fails

A scan fails before the first character that starts no lexeme. `StartsNothing` says without scanning
which characters these are, and `Blames` says what a lexical error tells about its text: the front
before the blamed character is scanned as if nothing came behind it, and of what comes behind it only
the next character matters, except that an unpaired quote makes the whole rest matter.
-/
namespace SqlStore
open Lexeme TokenKind
set_option autoImplicit false

/-! ### Recognizers that fail -/

variable {c : Char} {cs after : List Char}

theorem Lexeme.word?_cons_eq_none_iff : word? (c :: cs) = none ↔ isWordStart c = false := by
  simp [word?]

theorem Lexeme.unsigned?_eq_none_iff : unsigned? cs = none ↔ StopsAt Char.isDigit cs := by
  constructor
  · intro h
    obtain ⟨digits, rest, rfl, hDigits, hStop⟩ := exists_run Char.isDigit cs
    cases digits with
    | nil => exact hStop
    | cons d digits =>
      rw [unsigned?_of_run ⟨List.cons_ne_nil d digits, hDigits⟩ hStop] at h
      cases h
  · intro h
    have hRun : runLength Char.isDigit ([] ++ cs) = 0 := runLength_append_iff.mpr ⟨by simp, h⟩
    rw [List.nil_append] at hRun
    simp [unsigned?, hRun]

theorem Lexeme.number?_cons_eq_none_iff :
    number? (c :: cs) = none ↔ c.isDigit = false ∧ (c = '-' → StopsAt Char.isDigit cs) := by
  by_cases hc : c = '-'
  · subst hc
    simp [number?, unsigned?_eq_none_iff]
  · rw [number?, unsigned?_eq_none_iff, stopsAt_cons]
    · simp [hc]
    · simpa using hc

theorem Lexeme.string?_cons_eq_none_iff : string? (c :: cs) = none ↔ (c = '\'' → '\'' ∉ cs) := by
  by_cases hc : c = '\''
  · subst hc
    simp [string?]
  · rw [string?]
    · simp [hc]
    · simpa using hc

theorem Lexeme.comparator?_cons_eq_none_iff : comparator? (c :: cs) = none ↔
    c ∉ ['<', '=', '>'] ∧ (c = '!' → cs.head? ≠ some '=') := by
  have hNone : comparator? (c :: cs) = none ↔ ∀ op ∈ comparators, ¬ op.toList <+: c :: cs := by
    simp only [comparator?, Option.map_eq_none_iff, List.find?_eq_none, List.isPrefixOf_iff_prefix]
  rw [hNone]
  constructor
  · intro h
    refine ⟨fun hc => ?_, ?_⟩
    · have hSigns : ['<', '=', '>'].all (String.ofList [·] ∈ comparators) = true := by decide
      refine h _ (of_decide_eq_true (List.all_eq_true.mp hSigns c hc)) ?_
      rw [String.toList_ofList]
      exact List.prefix_append [c] cs
    · rintro rfl hNext
      obtain ⟨rest, rfl⟩ := List.head?_eq_some_iff.mp hNext
      exact h "!=" (by decide) ⟨rest, rfl⟩
  · rintro ⟨hSign, hNext⟩ op hOp ⟨rest, hText⟩
    have hStarts : ∀ op ∈ comparators,
        op.toList = ['!', '='] ∨ op.toList.head?.any (· ∈ ['<', '=', '>']) = true := by decide
    rcases hStarts op hOp with hUnequal | hFirst
    · rw [hUnequal] at hText
      cases hText
      exact hNext rfl rfl
    · cases hTail : op.toList with
      | nil => simp [hTail] at hFirst
      | cons d tail =>
        rw [hTail] at hText hFirst
        cases hText
        exact hSign (of_decide_eq_true hFirst)

theorem Lexeme.single?_cons_eq_none_iff {expected : Char} :
    single? expected (c :: cs) = none ↔ c ≠ expected := by
  simp [single?]

/-! ### Characters that start no lexeme -/

theorem TokenKind.firstMatch?_eq_none_iff {order : List TokenKind} (hOrder : IsPriority order) :
    firstMatch? order cs = none ↔ ∀ kind : TokenKind, kind.matchLength? cs = none := by
  rw [firstMatch?, List.findSome?_eq_none_iff]
  constructor
  · intro h kind
    by_cases hEnd : kind = endOfInput
    · rw [hEnd]
      rfl
    · exact Option.map_eq_none_iff.mp (h kind (hOrder.complete kind hEnd))
  · intro h kind _
    rw [h kind, Option.map_none]

/-- A special case of a kind fails where the kind does. -/
theorem TokenKind.matchLength?_of_genus {kind : TokenKind}
    (h : kind.genus.matchLength? cs = none) : kind.matchLength? cs = none := by
  rw [Option.eq_none_iff_forall_ne_some]
  intro n hMatch
  have hKinds : ∀ kind ∈ all, kind.genus ≠ kind →
      kind.genus = identifier ∨ kind = dateLiteral := by decide
  by_cases hSelf : kind.genus = kind
  · rw [hSelf, hMatch] at h
    cases h
  rcases hKinds kind kind.mem_all hSelf with hWord | rfl
  · obtain ⟨m, -, hFound, -⟩ := exists_head hWord (fun hKind => hSelf (hWord.trans hKind.symm)) hMatch
    rw [hWord, matchLength?, hFound] at h
    cases h
  · obtain ⟨date, rest, rfl, -, hDate, -⟩ := shape_of_matchLength? hMatch
    rw [genus, matchLength?, string?_append_iff.mpr (isQuoted_of_isDate hDate)] at h
    cases h

/-- A quote has no partner, a sign that could begin a lexeme is not followed by its second character,
and every other character begins none. -/
structure StartsNothing (c : Char) (after : List Char) : Prop where
  quote : c = '\'' → '\'' ∉ after
  letter : c.isAlpha = false
  digit : c.isDigit = false
  sign : c ∉ ['_', ',', '(', ')', ';', '<', '=', '>']
  minus : c = '-' → StopsAt Char.isDigit after
  exclamation : c = '!' → after.head? ≠ some '='

theorem startsNothing_iff {order : List TokenKind} (hOrder : IsPriority order) :
    StartsNothing c after ↔ firstMatch? order (c :: after) = none := by
  rw [firstMatch?_eq_none_iff hOrder]
  have hSingle : ∀ {expected : Char}, single? expected (c :: after) = none ↔ c ≠ expected :=
    single?_cons_eq_none_iff
  constructor
  · intro h kind
    have hSign := h.sign
    simp only [List.mem_cons, List.not_mem_nil, or_false, not_or] at hSign
    obtain ⟨hUnderscore, hComma, hOpen, hClose, hSemicolon, hOperator⟩ := hSign
    -- The kinds that are no special case decide.
    have hGeneral : ∀ kind : TokenKind, kind.genus = kind →
        kind.matchLength? (c :: after) = none := by
      intro kind hGenus
      cases kind with
      | identifier => exact word?_cons_eq_none_iff.mpr (by simp [isWordStart, h.letter, hUnderscore])
      | stringLiteral => exact string?_cons_eq_none_iff.mpr h.quote
      | numberLiteral => exact number?_cons_eq_none_iff.mpr ⟨h.digit, h.minus⟩
      | comparator => exact comparator?_cons_eq_none_iff.mpr ⟨by simpa using hOperator, h.exclamation⟩
      | comma => exact hSingle.mpr hComma
      | parenOpen => exact hSingle.mpr hOpen
      | parenClose => exact hSingle.mpr hClose
      | terminator => exact hSingle.mpr hSemicolon
      | endOfInput => rfl
      | _ => cases hGenus
    have hTwice : ∀ kind ∈ all, kind.genus.genus = kind.genus := by decide
    exact matchLength?_of_genus (hGeneral _ (hTwice kind kind.mem_all))
  · intro h
    have hWord := word?_cons_eq_none_iff.mp (h identifier)
    rw [isWordStart, Bool.or_eq_false_iff, beq_eq_false_iff_ne] at hWord
    obtain ⟨hDigit, hMinus⟩ := number?_cons_eq_none_iff.mp (h numberLiteral)
    obtain ⟨hOperator, hExclamation⟩ := comparator?_cons_eq_none_iff.mp (h comparator)
    have hComma := hSingle.mp (h comma)
    have hOpen := hSingle.mp (h parenOpen)
    have hClose := hSingle.mp (h parenClose)
    have hSemicolon := hSingle.mp (h terminator)
    exact {
      quote := string?_cons_eq_none_iff.mp (h stringLiteral)
      letter := hWord.1
      digit := hDigit
      sign := by
        simp only [List.mem_cons, List.not_mem_nil, or_false, not_or] at hOperator ⊢
        exact ⟨hWord.2, hComma, hOpen, hClose, hSemicolon, hOperator⟩
      minus := hMinus
      exclamation := hExclamation }

/-- Only for a quote does it matter what comes behind the next character. -/
theorem StartsNothing.of_next (h : StartsNothing c after) (hQuote : c ≠ '\'') {other : List Char}
    (hNext : other.head? = after.head?) : StartsNothing c other where
  quote hc := absurd hc hQuote
  letter := h.letter
  digit := h.digit
  sign := h.sign
  minus hc d hd := h.minus hc d (hNext ▸ hd)
  exclamation hc := hNext ▸ h.exclamation hc

theorem StartsNothing.halts (h : StartsNothing c after) (hBlank : Text.isBlank c = false) :
    Halts (c :: after) where
  blank := stopsAt_cons.mpr hBlank
  word := by
    have hSign := h.sign
    simp only [List.mem_cons, not_or] at hSign
    simp [isWordChar, Char.isAlphanum, h.letter, h.digit, hSign.1]
  operator d hd := by
    obtain rfl := Option.some_inj.mp hd
    have hSigns : ∀ d ∈ ['=', '>'], d ∈ ['_', ',', '(', ')', ';', '<', '=', '>'] := by simp
    exact fun hOperator => h.sign (hSigns c hOperator)

/-! ### Lexical errors -/

/-- The error blames the character `c` of a text for what stands before it and behind it. -/
structure LexError.Blames (e : LexError) (s : String) (before : List Char) (c : Char)
    (after : List Char) : Prop where
  text : s.toList = before ++ c :: after
  place : e.offset = Text.byteLength before
  inside : e.offset < s.utf8ByteSize
  boundary : String.Pos.Raw.IsValid s ⟨e.offset⟩
  front : tokenize (String.ofList before) =
    .ok ((Scan.ofText s).tokens ++ [Token.endAt e.offset])
  notBlank : Text.isBlank c = false
  unterminated : e.fault = .unterminatedString ↔ c = '\''
  unexpected : e.fault ≠ .unterminatedString → e.fault = .unexpectedChar c
  startsNothing : StartsNothing c after
  /-- Of what comes behind the character only the next one matters. -/
  stable : e.fault ≠ .unterminatedString → ∀ other : List Char, other.head? = after.head? →
    tokenize (String.ofList (before ++ c :: other)) = .error e

/-- A text fails before a character that starts nothing behind a front that is scanned. -/
theorem tokenize_of_startsNothing {before : List Char} {tokens : List Token}
    (hFront : ScannedFront (c :: after) 0 before tokens) (hBlank : Text.isBlank c = false)
    (hNothing : StartsNothing c after) :
    tokenize (String.ofList (before ++ c :: after)) =
      .error (LexError.starting (Text.byteLength before) c) := by
  have hNone := (startsNothing_iff isPriority_priority).mp hNothing
  rw [tokenize, Scan.ofText, String.toList_ofList, walk_of_scannedFront isPriority_priority hFront,
    Nat.zero_add, Scan.walk_of_none hBlank hNone]
  rfl

theorem exists_front_of_error {s : String} {e : LexError} (h : tokenize s = .error e) :
    ∃ before c after, s.toList = before ++ c :: after ∧
      ScannedFront (c :: after) 0 before (Scan.ofText s).tokens ∧ Text.isBlank c = false ∧
      StartsNothing c after ∧ e = LexError.starting (Text.byteLength before) c := by
  obtain ⟨before, rest, hText, hFront, hStop⟩ := scannedFront_of_walk isPriority_priority 0 s.toList
  rw [tokenize, Scan.result] at h
  rw [← Scan.ofText] at hFront hStop
  cases hResult : (Scan.ofText s).stop with
  | ok finish =>
    rw [hResult] at h
    cases h
  | error fault =>
    rw [hResult] at h hStop
    cases h
    rw [Nat.zero_add] at hStop
    cases hStop with
    | @fault c after notBlank noMatch =>
      exact ⟨before, c, after, hText, hFront, notBlank,
        (startsNothing_iff isPriority_priority).mpr noMatch, rfl⟩

/-- A front keeps its tokens when nothing comes behind it. -/
theorem tokenize_front {before rest : List Char} {tokens : List Token}
    (hFront : ScannedFront rest 0 before tokens) (hHalts : Halts rest) :
    tokenize (String.ofList before) = .ok (tokens ++ [Token.endAt (Text.byteLength before)]) := by
  have hAlone : ScannedFront [] 0 before tokens :=
    hFront.changed hHalts halts_nil (by rintro ⟨c, cs, ⟨⟩, -⟩)
  rw [tokenize_iff]
  refine ⟨tokens, ?_, by rw [Text.utf8ByteSize_ofList]⟩
  rwa [String.toList_ofList, ← scannedFront_nil_iff]

theorem Lexeme.HasFraction.of_next {other : List Char} (h : HasFraction (c :: other))
    (hNext : other.head? = after.head?) : HasFraction (c :: after) := by
  obtain ⟨d, ds, hRest, hDigit⟩ := h
  obtain ⟨rfl, rfl⟩ := List.cons.inj hRest
  obtain ⟨es, rfl⟩ := List.head?_eq_some_iff.mp hNext.symm
  exact ⟨d, es, rfl, hDigit⟩

theorem LexError.starting_of_ne {offset : Nat} (hc : c ≠ '\'') :
    LexError.starting offset c = ⟨.unexpectedChar c, offset⟩ := by
  rw [starting, if_neg hc]

theorem LexError.starting_fault_iff {offset : Nat} :
    (LexError.starting offset c).fault = .unterminatedString ↔ c = '\'' := by
  by_cases hc : c = '\''
  · subst hc
    exact iff_of_true rfl rfl
  · rw [starting_of_ne hc]
    exact iff_of_false (by simp) hc

theorem blames_of_tokenize {s : String} {e : LexError} (h : tokenize s = .error e) :
    ∃ before c after, e.Blames s before c after := by
  obtain ⟨before, c, after, hText, hFront, hBlank, hNothing, rfl⟩ := exists_front_of_error h
  have hHalts := hNothing.halts hBlank
  have hPlace : (LexError.starting (Text.byteLength before) c).offset = Text.byteLength before := rfl
  have hQuote : (LexError.starting (Text.byteLength before) c).fault ≠ .unterminatedString →
      c ≠ '\'' := mt LexError.starting_fault_iff.mpr
  refine ⟨before, c, after, {
    text := hText
    place := hPlace
    inside := ?_
    boundary := Text.isValid_byteLength hText
    front := tokenize_front hFront hHalts
    notBlank := hBlank
    unterminated := LexError.starting_fault_iff
    unexpected := fun hFault => by rw [LexError.starting_of_ne (hQuote hFault)]
    startsNothing := hNothing
    stable := fun hFault other hNext => ?_ }⟩
  · have hPositive := c.utf8Size_pos
    rw [hPlace, Text.utf8ByteSize_eq, hText, Text.byteLength_append, Text.byteLength_cons]
    omega
  · have hOther := hNothing.of_next (hQuote hFault) hNext
    have hSame : ScannedFront (c :: other) 0 before (Scan.ofText s).tokens :=
      hFront.changed hHalts (hOther.halts hBlank) fun hFraction => hFraction.of_next hNext
    exact tokenize_of_startsNothing hSame hBlank hOther

theorem blames_of_tokenize_point :
    ∃ before c after, (LexError.mk (.unexpectedChar '.') 9).Blames "'é' <1.5.x" before c after :=
  blames_of_tokenize (by decide +kernel)

end SqlStore
