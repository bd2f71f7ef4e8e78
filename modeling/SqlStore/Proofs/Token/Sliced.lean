import SqlStore.Proofs.Text.Slices
import SqlStore.Proofs.Token.Failure
import SqlStore.Proofs.Token.Keywords

/-!
# Recognizers over slices

The recognizers once more, over texts that are cut by positions in bytes. Words, digits, dates and
single signs are tested byte by byte, blanks and the body of a string character by character, and a
recognizer that reads on behind a part of its lexeme cuts a slice there, which can fail.
`recognize_eq` says that no slice fails: each recognizer gives the length in bytes of the lexeme that
is cut off the list of characters.
-/
namespace SqlStore
open Text Lexeme TokenKind
set_option autoImplicit false

namespace Sliced

def digits (rest : String) : Nat :=
  runLength Char.isDigit (byteChars rest)

def word? (rest : String) : Option Nat :=
  Lexeme.word? (byteChars rest)

def wordAmong? (choices : List String) (rest : String) : Except BadSlice (Option Nat) :=
  match word? rest with
  | none => .ok none
  | some length => do
    let word ← sliceTo rest length
    return if choices.contains word then some length else none

/-- The length of a keyword of two words whose first word has `head` bytes. -/
def compound? (head : Nat) (rest : String) : Except BadSlice (Option Nat) := do
  let behind ← sliceFrom rest head
  let gap := byteLength (behind.toList.takeWhile isBlank)
  if gap = 0 then return none
  let last ← sliceFrom rest (head + gap)
  match word? last with
  | none => return none
  | some tail =>
    let both ← sliceTo rest (head + gap + tail)
    return if (Keyword.ofText? both).isSome then some (head + gap + tail) else none

def keyword? (rest : String) : Except BadSlice (Option Nat) :=
  match word? rest with
  | none => .ok none
  | some head => do
    let first ← sliceTo rest head
    if (Keyword.ofText? first).isSome then return some head
    if Keyword.isCompoundHead first.toList then compound? head rest else return none

/-- The length of a number whose digits begin behind a sign of `sign` bytes. -/
def numberBehind? (sign : Nat) (rest : String) : Except BadSlice (Option Nat) := do
  let whole := digits (← sliceFrom rest sign)
  if whole = 0 then return none
  let behind ← sliceFrom rest (sign + whole)
  if behind.toList.head? = some '.' then
    let fraction := digits (← sliceFrom rest (sign + whole + 1))
    return some (if fraction = 0 then sign + whole else sign + whole + 1 + fraction)
  return some (sign + whole)

def number? (rest : String) : Except BadSlice (Option Nat) :=
  numberBehind? (if rest.toList.head? = some '-' then 1 else 0) rest

def string? (rest : String) : Except BadSlice (Option Nat) := do
  if rest.toList.head? = some '\'' then
    let body ← sliceFrom rest 1
    if '\'' ∈ body.toList then
      return some (byteLength (body.toList.takeWhile isUnquoted) + 2)
  return none

def comparator? (rest : String) : Option Nat :=
  (comparators.find? fun op => op.toList.isPrefixOf rest.toList).map String.utf8ByteSize

def recognize (kind : TokenKind) (rest : String) : Except BadSlice (Option Nat) :=
  match kind with
  | keyword => keyword? rest
  | identifier => .ok (word? rest)
  | stringLiteral => string? rest
  | numberLiteral => number? rest
  | booleanLiteral => wordAmong? ["TRUE", "FALSE"] rest
  | dateLiteral => .ok (date? (byteChars rest))
  | nullLiteral => wordAmong? ["NULL"] rest
  | comparator => .ok (comparator? rest)
  | connective => wordAmong? ["AND", "OR"] rest
  | comma => .ok (single? ',' (byteChars rest))
  | parenOpen => .ok (single? '(' (byteChars rest))
  | parenClose => .ok (single? ')' (byteChars rest))
  | terminator => .ok (single? ';' (byteChars rest))
  | endOfInput => .ok none

variable {c : Char} {cs ds : List Char} {n : Nat}

theorem ok_bind {α β : Type} (a : α) (f : α → Except BadSlice β) :
    (Except.ok a >>= f) = f a := rfl

/-! ### Lexemes of ASCII characters -/

theorem isAscii_of_isDigit (h : c.isDigit = true) : IsAscii c := by
  have := isDigit_iff.mp h
  unfold IsAscii
  omega

theorem isAscii_of_isWordChar (h : isWordChar c = true) : IsAscii c := by
  simp only [isWordChar, Char.isAlphanum, Bool.or_eq_true, beq_iff_eq] at h
  rcases h with (h | h) | rfl
  · have := isAlpha_iff.mp h
    unfold IsAscii
    omega
  · exact isAscii_of_isDigit h
  · decide

theorem isAscii_of_isWord {word : List Char} (h : IsWord word) : ∀ c ∈ word, IsAscii c :=
  fun _ hc => isAscii_of_isWordChar (isWordChar_of_mem h hc)

theorem isAscii_of_isUnsigned {number : List Char} (h : IsUnsigned number) :
    ∀ c ∈ number, IsAscii c := by
  have hDigits : ∀ {digits : List Char}, IsDigits digits → ∀ c ∈ digits, IsAscii c :=
    fun h c hc => isAscii_of_isDigit (h.2 c hc)
  cases h with
  | whole isDigits => exact hDigits isDigits
  | fraction isDigits areDecimals =>
    rw [List.forall_mem_append, List.forall_mem_cons]
    exact ⟨hDigits isDigits, by decide, hDigits areDecimals⟩

theorem isAscii_of_isNumber {number : List Char} (h : IsNumber number) :
    ∀ c ∈ number, IsAscii c := by
  cases h with
  | plain isUnsigned => exact isAscii_of_isUnsigned isUnsigned
  | negative isUnsigned =>
    exact List.forall_mem_cons.mpr ⟨by decide, isAscii_of_isUnsigned isUnsigned⟩

theorem isAscii_of_fits_cons {p : Char} {ps : List Char} (hp : IsAscii p)
    (h : fits (p :: ps) (c :: cs) = true) : IsAscii c := by
  simp only [fits, Bool.and_eq_true] at h
  have hFirst := h.1
  split at hFirst
  · exact isAscii_of_isDigit hFirst
  · rwa [beq_iff_eq.mp hFirst]

theorem isAscii_of_fits {ps date : List Char} (hPattern : ∀ p ∈ ps, IsAscii p)
    (hLength : date.length = ps.length) (h : fits ps date = true) : ∀ c ∈ date, IsAscii c := by
  induction ps generalizing date with
  | nil =>
    rw [List.length_eq_zero_iff.mp hLength]
    exact nofun
  | cons p ps ih =>
    cases date with
    | nil => cases hLength
    | cons c date =>
      obtain ⟨hp, hps⟩ := List.forall_mem_cons.mp hPattern
      have hRest : fits ps date = true := by
        simp only [fits, Bool.and_eq_true] at h
        exact h.2
      exact List.forall_mem_cons.mpr
        ⟨isAscii_of_fits_cons hp h, ih hps (Nat.succ.inj hLength) hRest⟩

/-- Only the gap in a keyword and the body of a string can hold longer characters. -/
theorem isAscii_of_shape {kind : TokenKind} {lexeme : List Char} (hKeyword : kind ≠ keyword)
    (hString : kind ≠ stringLiteral) (h : kind.Shape lexeme) : ∀ c ∈ lexeme, IsAscii c := by
  cases kind with
  | keyword => exact absurd rfl hKeyword
  | stringLiteral => exact absurd rfl hString
  | identifier => exact isAscii_of_isWord h
  | numberLiteral => exact isAscii_of_isNumber h
  | booleanLiteral =>
    exact isAscii_of_isWord ((by decide : ∀ word ∈ truthWords, IsWord word) lexeme h)
  | dateLiteral => exact isAscii_of_fits (isAscii_of_all (by decide)) h.2 h.1
  | nullLiteral =>
    exact isAscii_of_isWord ((by decide : ∀ word ∈ nullWords, IsWord word) lexeme h)
  | comparator =>
    have hOperators : ∀ op ∈ comparators, op.toList.all (IsAscii ·) = true := by decide
    exact isAscii_of_all (by simpa only [String.toList_ofList] using hOperators _ h)
  | connective =>
    exact isAscii_of_isWord ((by decide : ∀ word ∈ connectiveWords, IsWord word) lexeme h)
  | comma | parenOpen | parenClose | terminator =>
    cases h
    exact isAscii_of_all (by decide)
  | endOfInput => cases h

/-- Such a lexeme has as many bytes as characters. -/
theorem matchBytes?_eq_matchLength? {kind : TokenKind} (hKeyword : kind ≠ keyword)
    (hString : kind ≠ stringLiteral) (cs : List Char) :
    kind.matchBytes? cs = kind.matchLength? cs := by
  rw [matchBytes?]
  cases hMatch : kind.matchLength? cs with
  | none => rfl
  | some n =>
    obtain ⟨lexeme, rest, rfl, rfl, hShape, -⟩ := shape_of_matchLength? hMatch
    rw [Option.map_some, List.take_left,
      byteLength_of_isAscii (isAscii_of_shape hKeyword hString hShape)]

/-! ### Tests of bytes -/

theorem digits_ofList (cs : List Char) : digits (String.ofList cs) = runLength Char.isDigit cs := by
  rw [digits, runLength, (sameAscii_byteChars cs).takeWhile_eq fun _ => isAscii_of_isDigit,
    ← runLength]

theorem word?_of_sameAscii (h : SameAscii cs ds) : Lexeme.word? cs = Lexeme.word? ds := by
  have hStart : ∀ c, isWordStart c = true → IsAscii c :=
    fun _ h => isAscii_of_isWordChar (isWordChar_of_isWordStart h)
  cases h with
  | nil => rfl
  | ascii _ rest =>
    rw [Lexeme.word?, Lexeme.word?, runLength, rest.takeWhile_eq fun _ => isAscii_of_isWordChar,
      ← runLength]
  | other left right =>
    rw [Lexeme.word?, Lexeme.word?, eq_false_of_not_isAscii hStart left,
      eq_false_of_not_isAscii hStart right]
    simp

theorem word?_ofList (cs : List Char) : word? (String.ofList cs) = Lexeme.word? cs :=
  word?_of_sameAscii (sameAscii_byteChars cs)

theorem fits_of_sameAscii {ps : List Char} (hPattern : ∀ p ∈ ps, IsAscii p)
    (h : SameAscii cs ds) : fits ps cs = fits ps ds := by
  induction ps generalizing cs ds with
  | nil => rw [fits, fits]
  | cons p ps ih =>
    obtain ⟨hp, hps⟩ := List.forall_mem_cons.mp hPattern
    cases h with
    | nil => rfl
    | ascii _ rest => rw [fits, fits, ih hps rest]
    | @other c d cs ds left right =>
      rw [eq_false_of_not_isAscii (p := fun c => fits (p :: ps) (c :: cs))
          (fun _ => isAscii_of_fits_cons hp) left,
        eq_false_of_not_isAscii (p := fun d => fits (p :: ps) (d :: ds))
          (fun _ => isAscii_of_fits_cons hp) right]

theorem date?_byteChars (cs : List Char) : date? (byteChars (String.ofList cs)) = date? cs := by
  rw [date?, date?, fits_of_sameAscii (isAscii_of_all (by decide)) (sameAscii_byteChars cs)]

theorem single?_of_sameAscii {expected : Char} (hExpected : IsAscii expected)
    (h : SameAscii cs ds) : single? expected cs = single? expected ds := by
  have hFails : ∀ {c : Char}, ¬ IsAscii c → c ≠ expected := by
    rintro c hc rfl
    exact hc hExpected
  cases h with
  | nil => rfl
  | ascii _ _ => rw [single?, single?]
  | other left right => rw [single?, single?, if_neg (hFails left), if_neg (hFails right)]

theorem comparator?_ofList (cs : List Char) :
    comparator? (String.ofList cs) = Lexeme.comparator? cs := by
  have hLength : ∀ op ∈ comparators, op.utf8ByteSize = op.length := by decide
  rw [comparator?, Lexeme.comparator?, String.toList_ofList]
  exact Option.map_congr fun op hOp => hLength op (List.mem_of_find?_eq_some hOp)

/-! ### Slices inside a lexeme -/

theorem takeWhile_run {p : Char → Bool} {run rest : List Char} (hRun : ∀ c ∈ run, p c = true)
    (hStop : StopsAt p rest) : (run ++ rest).takeWhile p = run := by
  rw [List.takeWhile_append_of_pos hRun]
  cases rest with
  | nil => simp
  | cons c rest => simp [stopsAt_cons.mp hStop]

/-- The front of a text that is a word has as many bytes as characters. -/
theorem exists_word (h : Lexeme.word? cs = some n) :
    ∃ word rest, cs = word ++ rest ∧ n = word.length ∧ byteLength word = word.length := by
  obtain ⟨word, rest, rfl, rfl⟩ := exists_front (word?_bounds h).2
  have hWord := (word?_append_iff.mp h).1
  exact ⟨word, rest, rfl, rfl, byteLength_of_isAscii (isAscii_of_isWord hWord)⟩

theorem wordAmong?_ofList (choices : List String) (cs : List Char) :
    wordAmong? choices (String.ofList cs) = .ok (Lexeme.wordAmong? choices cs) := by
  rw [wordAmong?, Lexeme.wordAmong?, word?_ofList]
  cases hMatch : Lexeme.word? cs with
  | none => rfl
  | some n =>
    obtain ⟨word, rest, rfl, rfl, hBytes⟩ := exists_word hMatch
    have hSlice := sliceTo_ofList word rest
    rw [hBytes] at hSlice
    simp only [hSlice, ok_bind, Option.filter_some, List.take_left]
    rfl

theorem compound?_ofList (head after : List Char) :
    compound? (byteLength head) (String.ofList (head ++ after)) =
      .ok ((Lexeme.compound? head.length (head ++ after)).map fun n =>
        byteLength ((head ++ after).take n)) := by
  obtain ⟨gap, more, rfl, hGap, hMore⟩ := exists_run isBlank after
  rw [compound?_of_run hGap hMore, compound?]
  simp only [sliceFrom_ofList, ok_bind, String.toList_ofList, takeWhile_run hGap hMore,
    byteLength_eq_zero_iff]
  split
  · rfl
  rw [← byteLength_append, ← List.append_assoc, sliceFrom_ofList, ok_bind, word?_ofList]
  cases hMatch : Lexeme.word? more with
  | none => rfl
  | some n =>
    -- Only the gap may have more bytes than characters.
    obtain ⟨tail, rest, rfl, rfl, hBytes⟩ := exists_word hMatch
    have hTake := take_compound head gap tail rest
    have hSlice := sliceTo_ofList (head ++ gap ++ tail) rest
    rw [byteLength_append, hBytes, List.append_assoc] at hSlice
    rw [← List.append_assoc] at hTake
    simp only [hSlice, ok_bind, Option.map_some, Option.filter_some, hTake, Keyword.ofText?,
      String.toList_ofList]
    split
    · rw [Option.map_some, hTake, byteLength_append, byteLength_append, byteLength_append, hBytes]
      rfl
    · rfl

theorem keyword?_ofList (cs : List Char) :
    keyword? (String.ofList cs) = .ok (keyword.matchBytes? cs) := by
  rw [keyword?, matchBytes?, matchLength?, Lexeme.keyword?, word?_ofList]
  cases hMatch : Lexeme.word? cs with
  | none => rfl
  | some n =>
    obtain ⟨head, after, rfl, rfl, hBytes⟩ := exists_word hMatch
    have hSlice := sliceTo_ofList head after
    rw [hBytes] at hSlice
    simp only [hSlice, ok_bind, Option.bind_some, List.take_left, Keyword.ofText?,
      String.toList_ofList]
    split
    · rw [Option.map_some, List.take_left, hBytes]
      rfl
    · split
      · rw [← compound?_ofList, hBytes]
      · rfl

theorem fractionLength_point (cs : List Char) :
    fractionLength ('.' :: cs) =
      if runLength Char.isDigit cs = 0 then 0 else runLength Char.isDigit cs + 1 := by
  rw [fractionLength]
  cases runLength Char.isDigit cs with
  | zero => rfl
  | succ n => rfl

theorem numberBehind?_ofList (sign cs : List Char) :
    numberBehind? (byteLength sign) (String.ofList (sign ++ cs)) =
      .ok ((unsigned? cs).map (byteLength sign + ·)) := by
  obtain ⟨whole, behind, rfl, hWhole, hStop⟩ := exists_run Char.isDigit cs
  have hBytes : byteLength whole = whole.length :=
    byteLength_of_isAscii fun c hc => isAscii_of_isDigit (hWhole c hc)
  have hRun : runLength Char.isDigit (whole ++ behind) = whole.length :=
    runLength_append_iff.mpr ⟨hWhole, hStop⟩
  rw [numberBehind?]
  simp only [sliceFrom_ofList, ok_bind, digits_ofList, hRun, List.length_eq_zero_iff]
  split
  · rename_i hEmpty
    rw [hEmpty, List.nil_append, unsigned?_eq_none_iff.mpr hStop]
    rfl
  rename_i hNonempty
  -- The cut behind the digits is made by their number, which is their length in bytes.
  rw [unsigned?_of_run ⟨hNonempty, hWhole⟩ hStop, ← hBytes, ← byteLength_append,
    ← List.append_assoc, sliceFrom_ofList, ok_bind, String.toList_ofList, Option.map_some,
    ← Nat.add_assoc, ← byteLength_append]
  split
  · rename_i hPoint
    obtain ⟨more, rfl⟩ := List.head?_eq_some_iff.mp hPoint
    rw [sliceFrom_ofList_cons (by decide), ok_bind, digits_ofList, fractionLength_point]
    split
    · rfl
    · rw [Nat.add_comm (runLength _ _) 1, ← Nat.add_assoc]
      rfl
  · rename_i hPoint
    have hFraction : ¬ HasFraction behind := by
      rintro ⟨c, cs, rfl, -⟩
      exact hPoint rfl
    rw [fractionLength_eq_zero hFraction]
    rfl

theorem number?_ofList (cs : List Char) :
    number? (String.ofList cs) = .ok (Lexeme.number? cs) := by
  rw [number?, Lexeme.number?.eq_def, String.toList_ofList]
  split
  · rename_i hSign
    obtain ⟨cs, rfl⟩ := List.head?_eq_some_iff.mp hSign
    have hSign : byteLength ['-'] = 1 := rfl
    simpa only [hSign, Nat.add_comm 1, List.singleton_append] using numberBehind?_ofList ['-'] cs
  · rename_i hSign
    split
    · exact absurd rfl hSign
    · simpa using numberBehind?_ofList [] cs

theorem string?_ofList (cs : List Char) :
    string? (String.ofList cs) = .ok (stringLiteral.matchBytes? cs) := by
  rw [string?, matchBytes?, matchLength?, Lexeme.string?.eq_def, String.toList_ofList]
  split
  · rename_i hQuote
    obtain ⟨cs, rfl⟩ := List.head?_eq_some_iff.mp hQuote
    have hSlice : sliceFrom (String.ofList ('\'' :: cs)) 1 = .ok (String.ofList cs) :=
      sliceFrom_ofList_cons (by decide) [] cs
    simp only [hSlice, ok_bind, String.toList_ofList]
    split
    · rename_i hMem
      obtain ⟨body, tail, rfl, hClosed⟩ := List.eq_append_cons_of_mem hMem
      have hBody := isUnquoted_iff.mpr hClosed
      have hStop : StopsAt isUnquoted ('\'' :: tail) := stopsAt_cons.mpr (by decide)
      have hText : '\'' :: (body ++ '\'' :: tail) = '\'' :: (body ++ ['\'']) ++ tail := by simp
      have hBytes : byteLength ('\'' :: (body ++ ['\''])) = byteLength body + 2 := by
        rw [byteLength_cons, byteLength_append, Nat.add_comm]
        rfl
      rw [takeWhile_run hBody hStop, runLength_append_iff.mpr ⟨hBody, hStop⟩, Option.map_some,
        hText, List.take_left' (by simp), hBytes]
      rfl
    · rfl
  · rename_i hQuote
    split
    · exact absurd rfl hQuote
    · rfl

theorem recognize_of_isAscii {kind : TokenKind} (hKeyword : kind ≠ keyword)
    (hString : kind ≠ stringLiteral) (cs : List Char) :
    recognize kind (String.ofList cs) = .ok (kind.matchLength? cs) := by
  cases kind with
  | keyword => exact absurd rfl hKeyword
  | stringLiteral => exact absurd rfl hString
  | identifier => exact congrArg Except.ok (word?_ofList cs)
  | numberLiteral => exact number?_ofList cs
  | booleanLiteral | nullLiteral | connective => exact wordAmong?_ofList _ cs
  | dateLiteral => exact congrArg Except.ok (date?_byteChars cs)
  | comparator => exact congrArg Except.ok (comparator?_ofList cs)
  | comma | parenOpen | parenClose | terminator =>
    exact congrArg Except.ok (single?_of_sameAscii (by decide) (sameAscii_byteChars cs))
  | endOfInput => rfl

theorem recognize_ofList (kind : TokenKind) (cs : List Char) :
    recognize kind (String.ofList cs) = .ok (kind.matchBytes? cs) := by
  by_cases hKeyword : kind = keyword
  · rw [hKeyword]
    exact keyword?_ofList cs
  by_cases hString : kind = stringLiteral
  · rw [hString]
    exact string?_ofList cs
  rw [recognize_of_isAscii hKeyword hString, matchBytes?_eq_matchLength? hKeyword hString]

theorem recognize_eq (kind : TokenKind) (rest : String) :
    recognize kind rest = .ok (kind.matchBytes? rest.toList) := by
  rw [← recognize_ofList, String.ofList_toList]

theorem byteLength_take_pos {kind : TokenKind} (h : kind.matchLength? cs = some n) :
    0 < byteLength (cs.take n) := by
  obtain ⟨hPositive, hLe⟩ := matchLength?_bounds h
  refine Nat.pos_of_ne_zero fun hZero => ?_
  have hLength := congrArg List.length (byteLength_eq_zero_iff.mp hZero)
  rw [List.length_take_of_le hLe, List.length_nil] at hLength
  omega

theorem inside_of_recognize {kind : TokenKind} {rest : String} {length : Nat}
    (h : recognize kind rest = .ok (some length)) :
    0 < length ∧ length ≤ rest.utf8ByteSize ∧ String.Pos.Raw.IsValid rest ⟨length⟩ := by
  rw [recognize_eq, Except.ok.injEq, matchBytes?, Option.map_eq_some_iff] at h
  obtain ⟨n, hMatch, rfl⟩ := h
  have hValid : String.Pos.Raw.IsValid rest ⟨byteLength (rest.toList.take n)⟩ :=
    isValid_byteLength (List.take_append_drop n rest.toList).symm
  exact ⟨byteLength_take_pos hMatch, hValid.le_utf8ByteSize, hValid⟩

end Sliced
end SqlStore
