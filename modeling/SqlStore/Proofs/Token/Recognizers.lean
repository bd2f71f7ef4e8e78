import SqlStore.Proofs.Text.Words
import SqlStore.Token.LexicalClass

/-!
# Exact recognizers

A recognizer cuts a lexeme off the front of a text exactly if the lexeme has the shape that is asked
for and could not go on. There is one equivalence for each recognizer, over a text that is given as a
lexeme and the characters after it. Words and digits are runs, which end where a character of another
sort follows.
-/
namespace SqlStore.Lexeme
set_option autoImplicit false

/-! ### Runs -/

/-- No character that would continue a run comes next. -/
def StopsAt (p : Char → Bool) (rest : List Char) : Prop :=
  ∀ c ∈ rest.head?, p c = false

@[simp] theorem stopsAt_nil (p : Char → Bool) : StopsAt p [] := by
  simp [StopsAt]

@[simp] theorem stopsAt_cons {p : Char → Bool} {c : Char} {cs : List Char} :
    StopsAt p (c :: cs) ↔ p c = false := by
  simp [StopsAt]

theorem runLength_append_iff {p : Char → Bool} {run rest : List Char} :
    runLength p (run ++ rest) = run.length ↔ (∀ c ∈ run, p c = true) ∧ StopsAt p rest := by
  unfold runLength
  induction run with
  | nil => cases rest <;> simp [List.takeWhile_cons]
  | cons c run ih =>
    rw [List.cons_append, List.takeWhile_cons]
    cases hc : p c <;> simp [hc, ih]

theorem exists_run (p : Char → Bool) (cs : List Char) :
    ∃ run rest, cs = run ++ rest ∧ (∀ c ∈ run, p c = true) ∧ StopsAt p rest := by
  have hLength := @runLength_append_iff p (cs.take (runLength p cs)) (cs.drop (runLength p cs))
  rw [List.take_append_drop, List.length_take, Nat.min_eq_left (runLength_le p cs)] at hLength
  exact ⟨_, _, (List.take_append_drop ..).symm, hLength.mp rfl⟩

/-- A text has one maximal run at its front. -/
theorem run_append_inj {p : Char → Bool} {run rest run' rest' : List Char}
    (hRun : ∀ c ∈ run, p c = true) (hRest : StopsAt p rest) (hRun' : ∀ c ∈ run', p c = true)
    (hRest' : StopsAt p rest') (h : run ++ rest = run' ++ rest') : run = run' ∧ rest = rest' := by
  have hLength := runLength_append_iff.mpr ⟨hRun, hRest⟩
  rw [h, runLength_append_iff.mpr ⟨hRun', hRest'⟩] at hLength
  exact List.append_inj h hLength.symm

/-- No run reaches into a text that does not continue it. -/
theorem prefix_of_prefix_append {p : Char → Bool} {l front rest : List Char}
    (hAll : ∀ c ∈ l, p c = true) (hStop : StopsAt p rest) (h : l <+: front ++ rest) :
    l <+: front := by
  obtain ⟨after, hText⟩ := h
  rcases List.append_eq_append_iff.mp hText with ⟨between, rfl, -⟩ | ⟨between, rfl, hRest⟩
  · exact List.prefix_append l between
  · cases between with
    | nil => simp
    | cons c between =>
      rw [hRest, List.cons_append, stopsAt_cons, hAll c (by simp)] at hStop
      cases hStop

theorem length_le_of_run {p : Char → Bool} {run rest longer : List Char} (hRest : StopsAt p rest)
    (hLonger : ∀ c ∈ longer, p c = true) (h : longer <+: run ++ rest) :
    longer.length ≤ run.length :=
  (prefix_of_prefix_append hLonger hRest h).length_le

/-- A match is a front part of the text. -/
theorem exists_front {cs : List Char} {n : Nat} (h : n ≤ cs.length) :
    ∃ lexeme rest, cs = lexeme ++ rest ∧ lexeme.length = n :=
  ⟨cs.take n, cs.drop n, (List.take_append_drop n cs).symm, List.length_take_of_le h⟩

/-! ### Words -/

theorem word?_append_iff {word rest : List Char} :
    word? (word ++ rest) = some word.length ↔ IsWord word ∧ StopsAt isWordChar rest := by
  cases word with
  | nil =>
    constructor
    · intro h
      cases (word?_bounds h).1
    · rintro ⟨hWord, -⟩
      cases hWord
  | cons c word =>
    rw [List.cons_append, word?, IsWord]
    cases hc : isWordStart c <;> simp [runLength_append_iff]

theorem wordAmong?_append_iff {choices : List String} {word rest : List Char} :
    wordAmong? choices (word ++ rest) = some word.length ↔
      IsWord word ∧ StopsAt isWordChar rest ∧ String.ofList word ∈ choices := by
  rw [wordAmong?, Option.filter_eq_some_iff, word?_append_iff, and_assoc, List.take_left,
    List.contains_iff_mem]

theorem isWord_ne_nil {word : List Char} (h : IsWord word) : word ≠ [] := by
  rintro rfl
  cases h

theorem isWordChar_of_isWordStart {c : Char} (h : isWordStart c = true) : isWordChar c = true := by
  simp only [isWordStart, isWordChar, Char.isAlphanum, Bool.or_eq_true] at h ⊢
  rcases h with h | h
  · exact .inl (.inl h)
  · exact .inr h

theorem isWordChar_of_mem {word : List Char} (h : IsWord word) {c : Char} (hc : c ∈ word) :
    isWordChar c = true := by
  cases word with
  | nil => cases hc
  | cons d word =>
    rcases List.mem_cons.mp hc with rfl | hc
    · exact isWordChar_of_isWordStart h.1
    · exact h.2 c hc

/-- The characters from `!` up to the last one of ASCII are not blank. -/
theorem isBlank_eq_false {c : Char} (hLow : 0x20 < c.toNat) (hHigh : c.toNat < 0x7F) :
    Text.isBlank c = false := by
  rw [Bool.eq_false_iff]
  intro h
  obtain ⟨range, hRange, hLower, hUpper⟩ := CharSet.mem_iff.mp h
  have hApart : ∀ range ∈ Text.whiteSpace.ranges, range.2 ≤ 0x20 ∨ 0x7F ≤ range.1 := by decide
  have := hApart range hRange
  omega

theorem isDigit_iff {c : Char} : c.isDigit = true ↔ 0x30 ≤ c.toNat ∧ c.toNat ≤ 0x39 := by
  simp [Char.isDigit, UInt32.le_iff_toNat_le]

theorem isAlpha_iff {c : Char} : c.isAlpha = true ↔
    0x41 ≤ c.toNat ∧ c.toNat ≤ 0x5A ∨ 0x61 ≤ c.toNat ∧ c.toNat ≤ 0x7A := by
  unfold Char.isAlpha Char.isUpper Char.isLower
  simp [UInt32.le_iff_toNat_le]

theorem isBlank_of_isDigit {c : Char} (h : c.isDigit = true) : Text.isBlank c = false := by
  rw [isDigit_iff] at h
  exact isBlank_eq_false (by omega) (by omega)

theorem isBlank_of_isWordChar {c : Char} (h : isWordChar c = true) : Text.isBlank c = false := by
  simp only [isWordChar, Char.isAlphanum, Bool.or_eq_true, beq_iff_eq] at h
  rcases h with (h | h) | rfl
  · rw [isAlpha_iff] at h
    exact isBlank_eq_false (by omega) (by omega)
  · exact isBlank_of_isDigit h
  · decide

theorem isSolid_of_isWord {word : List Char} (h : IsWord word) : Text.IsSolid word :=
  ⟨isWord_ne_nil h, fun _ hc => isBlank_of_isWordChar (isWordChar_of_mem h hc)⟩

theorem words_of_isWord {word : List Char} (h : IsWord word) : Text.words word = [word] :=
  Text.words_eq_singleton (isSolid_of_isWord h).2 (isWord_ne_nil h)

/-! ### Keywords -/

theorem isWord_of_mem_words {k : Keyword} {word : List Char} (h : word ∈ k.words) : IsWord word := by
  have hAll : ∀ k ∈ Keyword.all, ∀ word ∈ k.words, IsWord word := by decide +kernel
  exact hAll k k.mem_all word h

theorem isWord_of_words {k : Keyword} {word : List Char} (h : k.words = [word]) : IsWord word :=
  isWord_of_mem_words (k := k) (by simp [h])

theorem isWord_of_words_pair {k : Keyword} {head tail : List Char} (h : k.words = [head, tail]) :
    IsWord head ∧ IsWord tail :=
  ⟨isWord_of_mem_words (k := k) (by simp [h]), isWord_of_mem_words (k := k) (by simp [h])⟩

/-- The first word of a keyword of two words is none by itself. -/
theorem ofChars?_head {k : Keyword} {head tail : List Char} (h : k.words = [head, tail]) :
    Keyword.ofChars? head = none := by
  have hAll : ∀ k ∈ Keyword.all, k.words.length = 2 →
      k.words.head?.bind Keyword.ofChars? = none := by decide +kernel
  simpa [h] using hAll k k.mem_all

theorem isCompoundHead_iff {head : List Char} :
    Keyword.isCompoundHead head = true ↔ ∃ k tail, Keyword.words k = [head, tail] := by
  have hHeads : ∀ head ∈ Keyword.compoundHeads,
      ∃ k tail, Keyword.words k = [head.toList, tail] := by
    simp only [Keyword.compoundHeads, List.forall_mem_cons]
    exact ⟨⟨.notNull, "NULL".toList, by decide +kernel⟩,
      ⟨.primaryKey, "KEY".toList, by decide +kernel⟩, nofun⟩
  have hWords : ∀ k ∈ Keyword.all, k.words.length = 2 →
      k.words.head?.all Keyword.isCompoundHead = true := by decide +kernel
  constructor
  · intro hHead
    simpa only [String.toList_ofList] using hHeads _ (List.contains_iff_mem.mp hHead)
  · rintro ⟨k, tail, hk⟩
    simpa [hk] using hWords k k.mem_all

theorem ofChars?_isSome_iff {text : List Char} :
    (Keyword.ofChars? text).isSome = true ↔ ∃ k, Keyword.words k = Text.words text := by
  rw [Option.isSome_iff_exists]
  exact exists_congr fun k => Keyword.ofChars?_eq_some_iff.trans eq_comm

theorem ofChars?_isSome_iff_of_isWord {word : List Char} (h : IsWord word) :
    (Keyword.ofChars? word).isSome = true ↔ ∃ k, Keyword.words k = [word] := by
  rw [ofChars?_isSome_iff, words_of_isWord h]

theorem words_compound {head gap tail : List Char} (hHead : IsWord head) (hGap : IsBlankRun gap)
    (hTail : IsWord tail) : Text.words (head ++ gap ++ tail) = [head, tail] := by
  obtain ⟨hNonempty, hBlank⟩ := hGap
  have hSkip : ∀ gap : List Char, (∀ c ∈ gap, Text.isBlank c = true) →
      Text.words (gap ++ tail) = Text.words tail := by
    intro gap hBlank
    induction gap with
    | nil => rfl
    | cons c gap ih =>
      obtain ⟨hc, hRest⟩ := List.forall_mem_cons.mp hBlank
      rw [List.cons_append, Text.words_cons_of_isBlank hc, ih hRest]
  have hNext : (gap ++ tail).head?.all Text.isBlank = true := by
    cases gap with
    | nil => exact absurd rfl hNonempty
    | cons c gap => exact hBlank c List.mem_cons_self
  rw [List.append_assoc, Text.words_append (isSolid_of_isWord hHead).2 (isWord_ne_nil hHead) hNext,
    hSkip gap hBlank, words_of_isWord hTail]

theorem stopsAt_of_isBlankRun {gap rest : List Char} (h : IsBlankRun gap) :
    StopsAt isWordChar (gap ++ rest) := by
  obtain ⟨hNonempty, hBlank⟩ := h
  cases gap with
  | nil => exact absurd rfl hNonempty
  | cons c gap =>
    rw [List.cons_append, stopsAt_cons, Bool.eq_false_iff]
    intro hc
    simpa [hBlank c List.mem_cons_self] using isBlank_of_isWordChar hc

theorem stopsAt_isBlank_of_isWord {word rest : List Char} (h : IsWord word) :
    StopsAt Text.isBlank (word ++ rest) := by
  cases word with
  | nil => cases h
  | cons c word => exact stopsAt_cons.mpr ((isSolid_of_isWord h).2 c List.mem_cons_self)

/-- The text after the head of a compound, cut into a gap and what follows. -/
theorem compound?_of_run {head gap more : List Char} (hGap : ∀ c ∈ gap, Text.isBlank c = true)
    (hMore : StopsAt Text.isBlank more) :
    compound? head.length (head ++ (gap ++ more)) =
      if gap = [] then none
      else
        ((word? more).map ((head ++ gap).length + ·)).filter fun n =>
          (Keyword.ofChars? ((head ++ (gap ++ more)).take n)).isSome := by
  have hRun : runLength Text.isBlank (gap ++ more) = gap.length :=
    runLength_append_iff.mpr ⟨hGap, hMore⟩
  have hDrop : (head ++ (gap ++ more)).drop (head.length + gap.length) = more := by
    rw [← List.append_assoc, ← List.length_append, List.drop_left]
  simp only [compound?, List.drop_left, hRun, hDrop, List.length_eq_zero_iff, List.length_append]

theorem take_compound (head gap tail rest : List Char) :
    (head ++ (gap ++ (tail ++ rest))).take ((head ++ gap).length + tail.length) =
      head ++ gap ++ tail := by
  rw [← List.length_append, ← List.append_assoc, ← List.append_assoc, List.take_left]

theorem compound?_sound {head after : List Char} {n : Nat} (hHead : IsWord head)
    (h : compound? head.length (head ++ after) = some n) :
    ∃ gap tail rest, after = gap ++ (tail ++ rest) ∧ (head ++ gap ++ tail).length = n ∧
      IsKeyword (head ++ gap ++ tail) ∧ StopsAt isWordChar rest := by
  obtain ⟨gap, more, rfl, hGap, hMore⟩ := exists_run Text.isBlank after
  rw [compound?_of_run hGap hMore] at h
  split at h
  · cases h
  · rename_i hNonempty
    obtain ⟨hLength, hKeyword⟩ := Option.filter_eq_some_iff.mp h
    obtain ⟨m, hWord, rfl⟩ := Option.map_eq_some_iff.mp hLength
    obtain ⟨tail, rest, rfl, rfl⟩ := exists_front (word?_bounds hWord).2
    obtain ⟨hTail, hStop⟩ := word?_append_iff.mp hWord
    rw [take_compound, ofChars?_isSome_iff, words_compound hHead ⟨hNonempty, hGap⟩ hTail] at hKeyword
    obtain ⟨k, hWords⟩ := hKeyword
    exact ⟨gap, tail, rest, rfl, List.length_append, .compound hWords ⟨hNonempty, hGap⟩, hStop⟩

theorem compound?_complete {k : Keyword} {head gap tail rest : List Char}
    (hWords : k.words = [head, tail]) (hGap : IsBlankRun gap) (hStop : StopsAt isWordChar rest) :
    compound? head.length (head ++ (gap ++ (tail ++ rest))) =
      some (head ++ gap ++ tail).length := by
  obtain ⟨hHead, hTail⟩ := isWord_of_words_pair hWords
  have hKeyword : (Keyword.ofChars? (head ++ gap ++ tail)).isSome = true := by
    rw [ofChars?_isSome_iff, words_compound hHead hGap hTail]
    exact ⟨k, hWords⟩
  rw [compound?_of_run hGap.2 (stopsAt_isBlank_of_isWord hTail), if_neg hGap.1,
    word?_append_iff.mpr ⟨hTail, hStop⟩, Option.map_some, Option.filter_some, take_compound,
    if_pos hKeyword]
  simp only [List.length_append]

theorem keyword?_append_iff {lexeme rest : List Char} :
    keyword? (lexeme ++ rest) = some lexeme.length ↔
      IsKeyword lexeme ∧ StopsAt isWordChar rest := by
  constructor
  · intro h
    obtain ⟨m, hWord, h⟩ := Option.bind_eq_some_iff.mp h
    obtain ⟨word, after, hText, rfl⟩ := exists_front (word?_bounds hWord).2
    rw [hText] at hWord h
    obtain ⟨hIsWord, hStop⟩ := word?_append_iff.mp hWord
    rw [List.take_left] at h
    split at h
    · rename_i hKeyword
      obtain ⟨k, hWords⟩ := (ofChars?_isSome_iff_of_isWord hIsWord).mp hKeyword
      obtain ⟨rfl, rfl⟩ := List.append_inj hText (Option.some_inj.mp h).symm
      exact ⟨.single hWords, hStop⟩
    · split at h
      · obtain ⟨gap, tail, rest', rfl, hLength, hKeyword, hEnd⟩ := compound?_sound hIsWord h
        rw [← List.append_assoc, ← List.append_assoc] at hText
        obtain ⟨rfl, rfl⟩ := List.append_inj hText hLength.symm
        exact ⟨hKeyword, hEnd⟩
      · cases h
  · rintro ⟨hKeyword, hStop⟩
    cases hKeyword with
    | @single k _ words =>
      have hWord : IsWord lexeme := isWord_of_words words
      rw [keyword?, word?_append_iff.mpr ⟨hWord, hStop⟩, Option.bind_some, List.take_left, if_pos]
      exact (ofChars?_isSome_iff_of_isWord hWord).mpr ⟨k, words⟩
    | @compound k head tail gap words blank =>
      obtain ⟨hHead, -⟩ := isWord_of_words_pair words
      rw [List.append_assoc, List.append_assoc, keyword?,
        word?_append_iff.mpr ⟨hHead, stopsAt_of_isBlankRun blank⟩, Option.bind_some, List.take_left,
        ofChars?_head words, if_neg (by simp), if_pos (isCompoundHead_iff.mpr ⟨k, tail, words⟩),
        compound?_complete words blank hStop, List.append_assoc]

/-! ### Numbers -/

/-- A point and a digit come next. -/
def HasFraction (rest : List Char) : Prop :=
  ∃ c cs, rest = '.' :: c :: cs ∧ c.isDigit = true

/-- A number goes on with digits, and with a fraction if it has none so far. -/
def EndsNumber (number rest : List Char) : Prop :=
  StopsAt Char.isDigit rest ∧ ('.' ∉ number → ¬ HasFraction rest)

theorem endsNumber_nil (number : List Char) : EndsNumber number [] := by
  refine ⟨stopsAt_nil _, fun _ => ?_⟩
  rintro ⟨c, cs, ⟨⟩, -⟩

theorem fractionLength_of_run {decimals rest : List Char} (hDecimals : IsDigits decimals)
    (hStop : StopsAt Char.isDigit rest) :
    fractionLength ('.' :: (decimals ++ rest)) = decimals.length + 1 := by
  have hRun := runLength_append_iff.mpr ⟨hDecimals.2, hStop⟩
  cases decimals with
  | nil => exact absurd rfl hDecimals.1
  | cons c decimals => simp only [fractionLength, hRun, List.length_cons]

theorem fractionLength_eq_zero {rest : List Char} (h : ¬ HasFraction rest) :
    fractionLength rest = 0 := by
  unfold fractionLength
  split
  · rename_i cs
    split
    · rfl
    · rename_i digits hRun
      cases cs with
      | nil => simp [runLength] at hRun
      | cons c cs =>
        cases hc : c.isDigit with
        | true => exact absurd ⟨c, cs, rfl, hc⟩ h
        | false => simp [runLength, hc] at hRun
  · rfl

theorem unsigned?_of_run {digits rest : List Char} (hDigits : IsDigits digits)
    (hStop : StopsAt Char.isDigit rest) :
    unsigned? (digits ++ rest) = some (digits.length + fractionLength rest) := by
  have hRun := runLength_append_iff.mpr ⟨hDigits.2, hStop⟩
  obtain ⟨n, hLength⟩ : ∃ n, digits.length = n + 1 :=
    Nat.exists_eq_succ_of_ne_zero (by simpa using hDigits.1)
  have hDrop : (digits ++ rest).drop (n + 1) = rest := by
    rw [← hLength, List.drop_left]
  rw [hLength] at hRun
  simp only [unsigned?, hRun, hDrop, hLength]

theorem unsigned?_sound {cs : List Char} {n : Nat} (h : unsigned? cs = some n) :
    ∃ number rest, cs = number ++ rest ∧ number.length = n ∧ IsUnsigned number ∧
      EndsNumber number rest := by
  obtain ⟨digits, tail, rfl, hDigits, hStop⟩ := exists_run Char.isDigit cs
  have hNonempty : digits ≠ [] := by
    rintro rfl
    have hRun : runLength Char.isDigit tail = 0 := runLength_append_iff.mpr ⟨hDigits, hStop⟩
    simp [unsigned?, hRun] at h
  rw [unsigned?_of_run ⟨hNonempty, hDigits⟩ hStop] at h
  cases h
  by_cases hFraction : HasFraction tail
  · obtain ⟨c, cs, rfl, hc⟩ := hFraction
    obtain ⟨decimals, rest, hSplit, hDecimals, hEnd⟩ := exists_run Char.isDigit (c :: cs)
    have hSome : decimals ≠ [] := by
      rintro rfl
      rw [← hSplit.trans (List.nil_append rest)] at hEnd
      simp [hc] at hEnd
    rw [hSplit, fractionLength_of_run ⟨hSome, hDecimals⟩ hEnd]
    exact ⟨digits ++ '.' :: decimals, rest, by simp, by simp,
      .fraction ⟨hNonempty, hDigits⟩ ⟨hSome, hDecimals⟩, hEnd, fun hPoint => absurd (by simp) hPoint⟩
  · rw [fractionLength_eq_zero hFraction]
    exact ⟨digits, tail, rfl, rfl, .whole ⟨hNonempty, hDigits⟩, hStop, fun _ => hFraction⟩

theorem point_not_mem_of_isDigits {digits : List Char} (h : IsDigits digits) : '.' ∉ digits := by
  intro hPoint
  exact absurd (h.2 _ hPoint) (by decide)

theorem unsigned?_append_iff {number rest : List Char} :
    unsigned? (number ++ rest) = some number.length ↔
      IsUnsigned number ∧ EndsNumber number rest := by
  constructor
  · intro h
    obtain ⟨number', rest', hText, hLength, hNumber⟩ := unsigned?_sound h
    obtain ⟨rfl, rfl⟩ := List.append_inj hText hLength.symm
    exact hNumber
  · rintro ⟨hNumber, hStop, hFraction⟩
    cases hNumber with
    | whole isDigits =>
      rw [unsigned?_of_run isDigits hStop,
        fractionLength_eq_zero (hFraction (point_not_mem_of_isDigits isDigits)), Nat.add_zero]
    | @fraction digits decimals isDigits areDecimals =>
      rw [List.append_assoc, List.cons_append,
        unsigned?_of_run isDigits (stopsAt_cons.mpr (by decide)),
        fractionLength_of_run areDecimals hStop, List.length_append, List.length_cons]

theorem exists_digit_of_isUnsigned {number : List Char} (h : IsUnsigned number) :
    ∃ c cs, number = c :: cs ∧ c.isDigit = true := by
  have hDigits : ∀ {digits : List Char}, IsDigits digits →
      ∃ c cs, digits = c :: cs ∧ c.isDigit = true := by
    rintro (_ | ⟨c, cs⟩) ⟨hNonempty, hAll⟩
    · exact absurd rfl hNonempty
    · exact ⟨c, cs, rfl, hAll c List.mem_cons_self⟩
  cases h with
  | whole isDigits => exact hDigits isDigits
  | fraction isDigits areDecimals =>
    obtain ⟨c, cs, rfl, hc⟩ := hDigits isDigits
    exact ⟨c, _, rfl, hc⟩

theorem number?_append_iff {number rest : List Char} :
    number? (number ++ rest) = some number.length ↔
      IsNumber number ∧ EndsNumber number rest := by
  constructor
  · intro h
    cases number with
    | nil => cases (number?_bounds h).1
    | cons c number =>
      rw [List.cons_append] at h
      unfold number? at h
      split at h
      · rename_i hText
        cases hText
        obtain ⟨m, hUnsigned, hLength⟩ := Option.map_eq_some_iff.mp h
        obtain rfl := Nat.succ.inj hLength
        obtain ⟨hNumber, hEnds⟩ := unsigned?_append_iff.mp hUnsigned
        exact ⟨.negative hNumber, hEnds.1, fun hPoint => hEnds.2 fun h => hPoint (.tail _ h)⟩
      · obtain ⟨hNumber, hEnds⟩ := (@unsigned?_append_iff (c :: number) rest).mp h
        exact ⟨.plain hNumber, hEnds⟩
  · rintro ⟨hNumber, hEnds⟩
    cases hNumber with
    | plain isUnsigned =>
      obtain ⟨c, cs, rfl, hc⟩ := exists_digit_of_isUnsigned isUnsigned
      have hSign : c ≠ '-' := by
        rintro rfl
        cases hc
      rw [List.cons_append, number?, ← List.cons_append, unsigned?_append_iff.mpr ⟨isUnsigned, hEnds⟩]
      simpa using hSign
    | @negative number isUnsigned =>
      have hEnds' : EndsNumber number rest :=
        ⟨hEnds.1, fun hPoint => hEnds.2 (by simpa using hPoint)⟩
      rw [List.cons_append, number?, unsigned?_append_iff.mpr ⟨isUnsigned, hEnds'⟩]
      rfl

instance (number : List Char) : Decidable (IsNumber number) :=
  decidable_of_iff (number? number = some number.length) <| by
    have hNumber := @number?_append_iff number []
    rw [List.append_nil] at hNumber
    exact hNumber.trans (and_iff_left (endsNumber_nil number))

/-! ### Quoted texts -/

theorem fits_append {ps cs rest : List Char} (h : ps.length ≤ cs.length) :
    fits ps (cs ++ rest) = fits ps cs := by
  induction ps generalizing cs with
  | nil => rw [fits, fits]
  | cons p ps ih =>
    cases cs with
    | nil => cases h
    | cons c cs => rw [List.cons_append, fits, fits, ih (Nat.le_of_succ_le_succ h)]

theorem date?_append_iff {date rest : List Char} :
    date? (date ++ rest) = some date.length ↔ IsDate date := by
  unfold date? IsDate
  constructor
  · intro h
    split at h
    · rename_i hFits
      have hLength := Option.some_inj.mp h
      rw [fits_append (Nat.le_of_eq hLength)] at hFits
      exact ⟨hFits, hLength.symm⟩
    · cases h
  · rintro ⟨hFits, hLength⟩
    rw [fits_append (Nat.le_of_eq hLength.symm), if_pos hFits, hLength]

/-- Quotes at both ends and none between them. -/
def IsQuoted (text : List Char) : Prop :=
  ∃ body, text = '\'' :: (body ++ ['\'']) ∧ '\'' ∉ body

theorem isUnquoted_iff {body : List Char} : (∀ c ∈ body, isUnquoted c = true) ↔ '\'' ∉ body := by
  constructor
  · intro h hQuote
    exact absurd (h _ hQuote) (by decide)
  · rintro h c hc
    simp only [isUnquoted, bne_iff_ne]
    rintro rfl
    exact h hc

theorem string?_of_quoted {body rest : List Char} (h : '\'' ∉ body) :
    string? ('\'' :: (body ++ '\'' :: rest)) = some (body.length + 2) := by
  have hRun : runLength isUnquoted (body ++ '\'' :: rest) = body.length :=
    runLength_append_iff.mpr ⟨isUnquoted_iff.mpr h, stopsAt_cons.mpr (by decide)⟩
  rw [string?, if_pos (by simp), hRun]

theorem string?_append_iff {string rest : List Char} :
    string? (string ++ rest) = some string.length ↔ IsQuoted string := by
  constructor
  · intro h
    have hQuote : ∃ cs, string ++ rest = '\'' :: cs ∧ '\'' ∈ cs := by
      unfold string? at h
      split at h
      · rename_i cs hText
        split at h
        · rename_i hMem
          exact ⟨cs, hText, hMem⟩
        · cases h
      · cases h
    obtain ⟨cs, hText, hMem⟩ := hQuote
    obtain ⟨body, tail, rfl, hBody, hStop⟩ := exists_run isUnquoted cs
    have hBody := isUnquoted_iff.mp hBody
    cases tail with
    | nil => exact absurd (by simpa using hMem) hBody
    | cons c tail =>
      have hc : c = '\'' := by simpa [isUnquoted] using hStop
      rw [hText, hc, string?_of_quoted hBody] at h
      have hSplit : string ++ rest = '\'' :: (body ++ ['\'']) ++ tail := by simp [hText, hc]
      obtain ⟨rfl, -⟩ := List.append_inj hSplit (by simpa using (Option.some_inj.mp h).symm)
      exact ⟨body, rfl, hBody⟩
  · rintro ⟨body, rfl, hBody⟩
    have hString := @string?_of_quoted body rest hBody
    simpa using hString

instance (string : List Char) : Decidable (IsString string) :=
  decidable_of_iff (string? string = some string.length ∧ ¬ IsDate string) <| by
    have hQuoted := @string?_append_iff string []
    rw [List.append_nil] at hQuoted
    rw [hQuoted]
    constructor
    · rintro ⟨⟨body, hBody, hQuote⟩, hDate⟩
      exact ⟨body, hBody, hQuote, hDate⟩
    · rintro ⟨body, hBody, hQuote, hDate⟩
      exact ⟨⟨body, hBody, hQuote⟩, hDate⟩

/-! ### Signs -/

/-- No longer comparison operator stands at the same place. -/
def EndsComparator (op rest : List Char) : Prop :=
  ∀ other ∈ comparators, other.toList <+: op ++ rest → other.length ≤ op.length

/-- The operators stand in an order in which the first one found is the longest. -/
theorem longest_of_find? {cs : List Char} {op : String}
    (h : comparators.find? (fun op => op.toList.isPrefixOf cs) = some op) :
    op ∈ comparators ∧ op.toList <+: cs ∧
      ∀ other ∈ comparators, other.toList <+: cs → other.length ≤ op.length := by
  obtain ⟨hOp, longer, shorter, hSplit, hMissed⟩ := List.find?_eq_some_iff_append.mp h
  refine ⟨List.mem_of_find?_eq_some h, List.isPrefixOf_iff_prefix.mp hOp, ?_⟩
  intro other hOther hHere
  have hOrder : comparators.Pairwise fun a b => b.length ≤ a.length := by decide
  rw [hSplit, List.pairwise_append, List.pairwise_cons] at hOrder
  rw [hSplit, List.mem_append, List.mem_cons] at hOther
  rcases hOther with hOther | rfl | hOther
  · have hNot := hMissed other hOther
    simp [List.isPrefixOf_iff_prefix.mpr hHere] at hNot
  · exact Nat.le_refl _
  · exact hOrder.2.1.1 other hOther

theorem comparator?_append_iff {op rest : List Char} :
    comparator? (op ++ rest) = some op.length ↔
      String.ofList op ∈ comparators ∧ EndsComparator op rest := by
  constructor
  · intro h
    obtain ⟨found, hFind, hLength⟩ := Option.map_eq_some_iff.mp h
    obtain ⟨hMem, hPrefix, hLongest⟩ := longest_of_find? hFind
    have hOp : found.toList = op := by
      obtain ⟨after, hText⟩ := hPrefix
      exact (List.append_inj hText (String.length_toList.trans hLength)).1
    rw [← hOp, String.ofList_toList]
    refine ⟨hMem, fun other hOther hHere => ?_⟩
    rw [hOp] at hHere
    rw [String.length_toList]
    exact hLongest other hOther hHere
  · rintro ⟨hOp, hEnds⟩
    have hHere : (String.ofList op).toList <+: op ++ rest := by
      rw [String.toList_ofList]
      exact List.prefix_append op rest
    have hSome : (comparators.find? fun op' => op'.toList.isPrefixOf (op ++ rest)).isSome = true :=
      List.find?_isSome.mpr ⟨_, hOp, List.isPrefixOf_iff_prefix.mpr hHere⟩
    obtain ⟨found, hFind⟩ := Option.isSome_iff_exists.mp hSome
    obtain ⟨hMem, hPrefix, hLongest⟩ := longest_of_find? hFind
    have hGe := hLongest _ hOp hHere
    rw [String.length_ofList] at hGe
    rw [comparator?, hFind, Option.map_some, Nat.le_antisymm (hEnds found hMem hPrefix) hGe]

theorem single?_append_iff {expected : Char} {lexeme rest : List Char} :
    single? expected (lexeme ++ rest) = some lexeme.length ↔ lexeme = [expected] := by
  cases lexeme with
  | nil =>
    constructor
    · intro h
      cases (single?_bounds h).1
    · rintro ⟨⟩
  | cons c lexeme =>
    rw [List.cons_append, single?]
    constructor
    · intro h
      split at h
      · rename_i hc
        rw [hc, List.eq_nil_of_length_eq_zero (Nat.succ.inj (Option.some_inj.mp h)).symm]
      · cases h
    · rintro ⟨⟩
      rw [if_pos rfl]
      rfl

end SqlStore.Lexeme
