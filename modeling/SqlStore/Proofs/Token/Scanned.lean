import SqlStore.Proofs.Token.Priority
import SqlStore.Token.Layout

/-!
# What a scan finds

`Scanned` says without scanning which tokens a text has: each lexeme stands where no other lexeme
could be cut off. A scan succeeds exactly if there are such tokens, and finds them; where it fails,
it has found those of the front before its stop. The remaining lemmas say which characters may follow
a lexeme that is to stand by itself.
-/
namespace SqlStore
open Lexeme TokenKind
set_option autoImplicit false

inductive Scanned : Nat → List Char → List Token → Prop where
  | done {offset : Nat} : Scanned offset [] []
  | blank {offset : Nat} {c : Char} {cs : List Char} {tokens : List Token}
      (isBlank : Text.isBlank c = true) (rest : Scanned (offset + c.utf8Size) cs tokens) :
      Scanned offset (c :: cs) tokens
  | token {offset : Nat} {kind : TokenKind} {lexeme cs : List Char} {tokens : List Token}
      (stands : kind.Stands lexeme cs)
      (rest : Scanned (offset + Text.byteLength lexeme) cs tokens) :
      Scanned offset (lexeme ++ cs) (⟨kind, String.ofList lexeme, offset⟩ :: tokens)

variable {order : List TokenKind} {offset : Nat} {cs : List Char} {tokens : List Token}

theorem Scanned.class_of_mem (h : Scanned offset cs tokens) {t : Token} (ht : t ∈ tokens) :
    t.kind.Class t.lexeme.toList := by
  induction h with
  | done => cases ht
  | blank isBlank rest ih => exact ih ht
  | token stands rest ih =>
    rcases List.mem_cons.mp ht with rfl | ht
    · rw [String.toList_ofList]
      exact stands.isClass
    · exact ih ht

theorem Scanned.kind_ne_endOfInput (h : Scanned offset cs tokens) {t : Token} (ht : t ∈ tokens) :
    t.kind ≠ .endOfInput := by
  intro hKind
  have hClass := h.class_of_mem ht
  rw [hKind] at hClass
  exact hClass

theorem exists_start {kind : TokenKind} {lexeme : List Char} (h : kind.Class lexeme) :
    ∃ c rest, lexeme = c :: rest ∧ Text.isBlank c = false := by
  have hStart := ofStart?_of_shape (shape_of_class h)
  cases lexeme with
  | nil => cases hStart
  | cons c rest => exact ⟨c, rest, rfl, isBlank_of_ofStart? hStart⟩

theorem Scanned.layout (h : Scanned offset cs tokens) : Layout offset cs tokens := by
  induction h with
  | done => exact .done
  | blank isBlank rest ih => exact .blank isBlank ih
  | token stands rest ih =>
    obtain ⟨c, lexeme, rfl, -⟩ := exists_start stands.isClass
    exact .token (List.cons_ne_nil c lexeme) ih

/-! ### Fronts of texts -/

/-- The tokens of the front of a text that has `rest` behind it: lexemes end in view of all of it. -/
inductive ScannedFront (rest : List Char) : Nat → List Char → List Token → Prop where
  | done {offset : Nat} : ScannedFront rest offset [] []
  | blank {offset : Nat} {c : Char} {cs : List Char} {tokens : List Token}
      (isBlank : Text.isBlank c = true) (front : ScannedFront rest (offset + c.utf8Size) cs tokens) :
      ScannedFront rest offset (c :: cs) tokens
  | token {offset : Nat} {kind : TokenKind} {lexeme cs : List Char} {tokens : List Token}
      (stands : kind.Stands lexeme (cs ++ rest))
      (front : ScannedFront rest (offset + Text.byteLength lexeme) cs tokens) :
      ScannedFront rest offset (lexeme ++ cs) (⟨kind, String.ofList lexeme, offset⟩ :: tokens)

/-- A front with nothing behind it is the whole text. -/
theorem scannedFront_nil_iff : ScannedFront [] offset cs tokens ↔ Scanned offset cs tokens := by
  constructor
  · intro h
    induction h with
    | done => exact .done
    | blank isBlank _ ih => exact .blank isBlank ih
    | token stands _ ih => exact .token (by rwa [List.append_nil] at stands) ih
  · intro h
    induction h with
    | done => exact .done
    | blank isBlank _ ih => exact .blank isBlank ih
    | token stands _ ih => exact .token (by rwa [List.append_nil]) ih

/-- Behind its front a text is scanned as it would be by itself, at its distance. -/
theorem walk_of_scannedFront (hOrder : IsPriority order) {rest : List Char}
    (h : ScannedFront rest offset cs tokens) :
    Scan.walk order offset (cs ++ rest) =
      let behind := Scan.walk order (offset + Text.byteLength cs) rest
      ⟨tokens ++ behind.tokens, behind.stop⟩ := by
  induction h with
  | done => rfl
  | blank isBlank _ ih =>
    rw [List.cons_append, Scan.walk_of_isBlank isBlank, ih, Text.byteLength_cons, Nat.add_assoc]
  | @token offset kind lexeme cs tokens stands _ ih =>
    have hMatch := (firstMatch?_append_iff hOrder).mpr stands
    obtain ⟨c, lexeme, rfl, hc⟩ := exists_start stands.isClass
    rw [List.append_assoc]
    rw [List.cons_append] at hMatch ⊢
    rw [Scan.walk_of_some hc hMatch, ← List.cons_append, List.take_left, List.drop_left, ih,
      Text.byteLength_append, Nat.add_assoc]
    rfl

/-- Where a scan can stop: at the end of the text, or before a character that starts no lexeme. -/
inductive Scan.StopsBefore (order : List TokenKind) (offset : Nat) :
    List Char → Except LexError Nat → Prop where
  | finish : StopsBefore order offset [] (.ok offset)
  | fault {c : Char} {after : List Char} (notBlank : Text.isBlank c = false)
      (noMatch : firstMatch? order (c :: after) = none) :
      StopsBefore order offset (c :: after) (.error (LexError.starting offset c))

/-- Each scan finds the tokens of the front before the place where it stops. -/
theorem scannedFront_of_walk (hOrder : IsPriority order) (offset : Nat) (cs : List Char) :
    ∃ front rest, cs = front ++ rest ∧
      ScannedFront rest offset front (Scan.walk order offset cs).tokens ∧
      Scan.StopsBefore order (offset + Text.byteLength front) rest
        (Scan.walk order offset cs).stop := by
  fun_induction Scan.walk order offset cs with
  | case1 offset => exact ⟨[], [], rfl, .done, .finish⟩
  | case2 offset c rest hBlank ih =>
    obtain ⟨front, back, rfl, hFront, hStop⟩ := ih
    rw [Nat.add_assoc, ← Text.byteLength_cons] at hStop
    exact ⟨c :: front, back, rfl, .blank hBlank hFront, hStop⟩
  | case3 offset c rest hBlank hMatch =>
    exact ⟨[], c :: rest, rfl, .done, .fault (by simpa using hBlank) hMatch⟩
  | case4 offset c rest hBlank kind n hMatch lexeme ih =>
    obtain ⟨front, back, hDrop, hFront, hStop⟩ := ih
    have hSplit : c :: rest = lexeme ++ (front ++ back) := by
      rw [← hDrop]
      exact (List.take_append_drop ..).symm
    have hLength : lexeme.length = n :=
      List.length_take_of_le (firstMatch?_bounds hMatch).2
    rw [hSplit, ← hLength, firstMatch?_append_iff hOrder] at hMatch
    rw [Nat.add_assoc, ← Text.byteLength_append] at hStop
    exact ⟨lexeme ++ front, back, by rw [hSplit, List.append_assoc], .token hMatch hFront, hStop⟩

theorem scanned_of_walk (hOrder : IsPriority order) {finish : Nat}
    (h : (Scan.walk order offset cs).stop = .ok finish) :
    Scanned offset cs (Scan.walk order offset cs).tokens := by
  obtain ⟨front, rest, hText, hFront, hStop⟩ := scannedFront_of_walk hOrder offset cs
  rw [h] at hStop
  cases hStop
  rw [List.append_nil] at hText
  rw [scannedFront_nil_iff, ← hText] at hFront
  exact hFront

theorem walk_of_scanned (hOrder : IsPriority order) (h : Scanned offset cs tokens) :
    Scan.walk order offset cs = ⟨tokens, .ok (offset + Text.byteLength cs)⟩ := by
  have hWalk := walk_of_scannedFront hOrder (scannedFront_nil_iff.mpr h)
  simpa using hWalk

theorem tokenize_eq_ok_iff {s : String} {ts : List Token} :
    tokenize s = .ok ts ↔ (Scan.ofText s).stop = .ok s.utf8ByteSize ∧
      ts = (Scan.ofText s).tokens ++ [Token.endAt s.utf8ByteSize] := by
  rw [tokenize, Scan.result]
  constructor
  · intro h
    cases hStop : (Scan.ofText s).stop with
    | error e =>
      rw [hStop] at h
      cases h
    | ok finish =>
      have hFinish : finish = s.utf8ByteSize := by
        rw [(Scan.layout_of_walk hStop).2, Nat.zero_add, Text.utf8ByteSize_eq]
      rw [hStop, hFinish] at h
      cases h
      exact ⟨by rw [hFinish], rfl⟩
  · rintro ⟨hStop, rfl⟩
    rw [hStop]
    rfl

/-- The tokens of a text are those that stand in it, and an end mark after the last byte. -/
theorem tokenize_iff {s : String} {ts : List Token} :
    tokenize s = .ok ts ↔
      ∃ tokens, Scanned 0 s.toList tokens ∧ ts = tokens ++ [Token.endAt s.utf8ByteSize] := by
  rw [tokenize_eq_ok_iff]
  constructor
  · rintro ⟨hStop, rfl⟩
    exact ⟨_, scanned_of_walk isPriority_priority hStop, rfl⟩
  · rintro ⟨tokens, h, rfl⟩
    rw [Scan.ofText, walk_of_scanned isPriority_priority h, Nat.zero_add, Text.utf8ByteSize_eq]
    exact ⟨rfl, rfl⟩

/-! ### What may follow -/

theorem Lexeme.StopsAt.isDigit {rest : List Char} (h : StopsAt isWordChar rest) :
    StopsAt Char.isDigit rest := by
  intro c hc
  have hWord := h c hc
  simp only [isWordChar, Char.isAlphanum, Bool.or_eq_false_iff] at hWord
  exact hWord.1.2

/-- A blank or a sign that belongs to no longer lexeme. -/
def isBreak (c : Char) : Bool :=
  Text.isBlank c || c ∈ [',', '(', ')', ';']

/-- The text ends here or goes on with a character that breaks every lexeme. -/
def Breaks (rest : List Char) : Prop :=
  ∀ c ∈ rest.head?, isBreak c = true

theorem isWordChar_of_isBreak {c : Char} (h : isBreak c = true) : isWordChar c = false := by
  rw [Bool.eq_false_iff]
  intro hc
  simp only [isBreak, isBlank_of_isWordChar hc, Bool.false_or, decide_eq_true_eq] at h
  have hSigns : [',', '(', ')', ';'].all (!isWordChar ·) = true := by decide
  have hSign := List.all_eq_true.mp hSigns c h
  rw [hc] at hSign
  cases hSign

theorem Breaks.stopsAt_word {rest : List Char} (h : Breaks rest) : StopsAt isWordChar rest :=
  fun c hc => isWordChar_of_isBreak (h c hc)

theorem Breaks.endsNumber {rest : List Char} (h : Breaks rest) (number : List Char) :
    EndsNumber number rest := by
  refine ⟨h.stopsAt_word.isDigit, fun _ => ?_⟩
  rintro ⟨c, cs, rfl, -⟩
  exact absurd (h '.' rfl) (by decide)

theorem Breaks.endsComparator {rest : List Char} (h : Breaks rest) (op : List Char) :
    EndsComparator op rest := by
  intro other hOther hPrefix
  have hSigns : ∀ op ∈ comparators, op.toList.all (!isBreak ·) = true := by decide
  have hStop : StopsAt (!isBreak ·) rest := fun c hc => by simp [h c hc]
  rw [← String.length_toList]
  exact length_le_of_run hStop (List.all_eq_true.mp (hSigns other hOther)) hPrefix

theorem Breaks.ends {rest : List Char} (h : Breaks rest) (kind : TokenKind) (lexeme : List Char) :
    kind.Ends lexeme rest := by
  cases kind with
  | keyword | identifier | booleanLiteral | nullLiteral | connective => exact h.stopsAt_word
  | numberLiteral => exact h.endsNumber lexeme
  | comparator => exact h.endsComparator lexeme
  | _ => trivial

theorem Breaks.stands {rest : List Char} (h : Breaks rest) {kind : TokenKind} {lexeme : List Char}
    (hClass : kind.Class lexeme) (hKind : kind ≠ .identifier) : kind.Stands lexeme rest :=
  ⟨hClass, h.ends kind lexeme, fun hEq => absurd hEq hKind⟩

/-- Only a keyword of two words can start with an identifier, and blanks come before the second. -/
theorem startsKeyword_iff {word rest : List Char} (hWord : IsIdentifier word)
    (hStop : StopsAt isWordChar rest) :
    StartsKeyword word rest ↔ ∃ (k : Keyword) (gap tail back : List Char),
      rest = gap ++ tail ++ back ∧ k.words = [word, tail] ∧ IsBlankRun gap ∧
        StopsAt isWordChar back := by
  constructor
  · rintro ⟨front, back, rfl, hKeyword, hEnd⟩
    have hHead : ∀ {head after : List Char}, IsWord head → StopsAt isWordChar after →
        word ++ (front ++ back) = head ++ after → word = head ∧ front ++ back = after :=
      fun hHead hAfter hText => run_append_inj (fun _ hc => isWordChar_of_mem hWord.1 hc) hStop
        (fun _ hc => isWordChar_of_mem hHead hc) hAfter hText
    generalize hLexeme : word ++ front = lexeme at hKeyword
    have hText : word ++ (front ++ back) = lexeme ++ back := by
      rw [← hLexeme, List.append_assoc]
    cases hKeyword with
    | @single k _ words =>
      obtain ⟨rfl, -⟩ := hHead (isWord_of_words words) hEnd hText
      exact absurd (isReserved_iff.mpr (.inl ⟨k, words⟩)) hWord.2
    | @compound k head tail gap words blank =>
      rw [List.append_assoc, List.append_assoc] at hText
      obtain ⟨rfl, hRest⟩ := hHead (isWord_of_words_pair words).1
        (stopsAt_of_isBlankRun blank) hText
      exact ⟨k, gap, tail, back, by rw [hRest, List.append_assoc], words, blank, hEnd⟩
  · rintro ⟨k, gap, tail, back, rfl, words, blank, hEnd⟩
    exact ⟨gap ++ tail, back, rfl, by rw [← List.append_assoc]; exact .compound words blank, hEnd⟩

end SqlStore
