import SqlStore.Proofs.Parser.Reach
import SqlStore.Token.LexicalClass

/-!
# Sizes as they are written

The sizes of a type are taken as they are written, or refused: every number that is due as a size is
a whole number below 2³² in decimal digits, or an error at its token, and the type holds the numbers
in their order, no more and no fewer.
-/
namespace SqlStore.Parser
open Grammar
set_option autoImplicit false

/-! ### Numbers as sizes -/

/-- The value of decimal digits. -/
def decimal (lexeme : String) : Nat :=
  Nat.ofDigitChars 10 lexeme.toList 0

/-- A number without sign and fraction that is not too large. -/
structure IsSize (t : Token) : Prop where
  number : t.kind = .numberLiteral
  unsigned : '-' ∉ t.lexeme.toList
  whole : '.' ∉ t.lexeme.toList
  bounded : decimal t.lexeme ≤ 4294967295

theorem isDigits_of_isNumber {number : List Char} (h : Lexeme.IsNumber number)
    (hSign : '-' ∉ number) (hPoint : '.' ∉ number) : Lexeme.IsDigits number := by
  cases h with
  | plain isUnsigned =>
    cases isUnsigned with
    | whole isDigits => exact isDigits
    | fraction _ _ => simp at hPoint
  | negative _ => simp at hSign

theorem not_mem_of_isDigits {digits : List Char} (h : ∀ d ∈ digits, d.isDigit = true) {c : Char}
    (hc : c.isDigit = false) : c ∉ digits := by
  intro hMem
  rw [h c hMem] at hc
  cases hc

theorem dropPlus_of_isNumber {number : List Char} (h : Lexeme.IsNumber number) :
    Size.dropPlus number = number := by
  have hUnsigned : ∀ {number}, Lexeme.IsUnsigned number → '+' ∉ number := by
    intro number h
    cases h with
    | whole isDigits => exact not_mem_of_isDigits isDigits.2 (by decide)
    | fraction isDigits areDecimals =>
      have hDigits := not_mem_of_isDigits isDigits.2 (by decide : '+'.isDigit = false)
      have hDecimals := not_mem_of_isDigits areDecimals.2 (by decide : '+'.isDigit = false)
      simp [hDigits, hDecimals]
  have hPlus : '+' ∉ number := by
    cases h with
    | plain isUnsigned => exact hUnsigned isUnsigned
    | negative isUnsigned => simpa using hUnsigned isUnsigned
  unfold Size.dropPlus
  split
  · simp at hPlus
  · rfl

/-- Exactly the numbers without sign and fraction are sizes, unless they are too large. -/
theorem sizeForm_iff {t : Token} {n : Size} (hNumber : Lexeme.IsNumber t.lexeme.toList) :
    SizeForm t n ↔ IsSize t ∧ decimal t.lexeme = n.toNat := by
  have hSize : UInt32.size = 4294967296 := rfl
  have hDrop := dropPlus_of_isNumber hNumber
  constructor
  · rintro ⟨hKind, hValue⟩
    simp only [Size.ofText?, hDrop, Option.ite_none_right_eq_some, Option.some.injEq,
      List.all_eq_true] at hValue
    obtain ⟨⟨-, hDigits, hBound⟩, rfl⟩ := hValue
    refine ⟨⟨hKind, ?_, ?_, ?_⟩, ?_⟩
    · exact not_mem_of_isDigits hDigits (by decide)
    · exact not_mem_of_isDigits hDigits (by decide)
    · rw [decimal]
      omega
    · exact (UInt32.toNat_ofNat_of_lt hBound).symm
  · rintro ⟨⟨hKind, hSign, hPoint, hBound⟩, hValue⟩
    obtain ⟨hSome, hDigits⟩ := isDigits_of_isNumber hNumber hSign hPoint
    rw [decimal] at hBound hValue
    refine ⟨hKind, ?_⟩
    rw [Size.ofText?, hDrop, if_pos ⟨hSome, List.all_eq_true.mpr hDigits, by omega⟩, hValue]
    simp

theorem exists_sizeForm {t : Token} (h : IsSize t) (hNumber : Lexeme.IsNumber t.lexeme.toList) :
    ∃ n, SizeForm t n ∧ n.toNat = decimal t.lexeme := by
  have hBounded := h.bounded
  have hBound : decimal t.lexeme < UInt32.size := by
    have hSize : UInt32.size = 4294967296 := rfl
    omega
  have hValue := UInt32.toNat_ofNat_of_lt hBound
  exact ⟨_, (sizeForm_iff hNumber).mpr ⟨h, hValue.symm⟩, hValue⟩

/-! ### Sizes in order -/

/-- Where a size is due after the keyword of a type, and the values of the sizes before it. -/
inductive SizeDue : Keyword → List Token → List Nat → Prop
  | first {k : Keyword} {opening : Token} (takesSizes : k = .char ∨ k = .varchar ∨ k = .float)
      (isOpening : opening.kind = .parenOpen) : SizeDue k [opening] []
  | scale {opening precision comma : Token} (isOpening : opening.kind = .parenOpen)
      (isSize : IsSize precision) (isComma : comma.kind = .comma) :
      SizeDue .float [opening, precision, comma] [decimal precision.lexeme]

/-- The type of a keyword with sizes of these values. -/
inductive Sized : Keyword → List Nat → DataType → Prop
  | char {n : Size} : Sized .char [n.toNat] (.char (some n))
  | varchar {n : Size} : Sized .varchar [n.toNat] (.varchar (some n))
  | precision {n : Size} : Sized .float [n.toNat] (.float (some n) none)
  | scaled {n m : Size} : Sized .float [n.toNat, m.toNat] (.float (some n) (some m))

/-- What becomes of a type whose keyword has the tokens `ahead` behind it, from an opening parenthesis
at the index `start` on. -/
structure SizesExact (k : Keyword) (start : Nat) (ahead : List Token)
    (result : Except ParseError DataType) : Prop where
  takesNone : k = .bool ∨ k = .int ∨ k = .date → result = .error ⟨.sizesNotAllowed k, start⟩
  notNumber : ∀ (place : List Token) (values : List Nat) (t : Token) (more : List Token),
    SizeDue k place values → ahead = place ++ t :: more → t.kind ≠ .numberLiteral →
      result = .error ⟨.unexpectedToken .size t, start + place.length⟩
  refused : ∀ (place : List Token) (values : List Nat) (t : Token) (more : List Token),
    SizeDue k place values → ahead = place ++ t :: more → t.kind = .numberLiteral →
      (result = .error ⟨.invalidSize k t.lexeme, start + place.length⟩ ↔ ¬ IsSize t)
  taken : ∀ (place : List Token) (values : List Nat) (t closing : Token) (more : List Token),
    SizeDue k place values → ahead = place ++ t :: closing :: more → IsSize t →
      closing.kind = .parenClose →
        ∃ type, result = .ok type ∧ Sized k (values ++ [decimal t.lexeme]) type
  /-- Only a FLOAT goes on, after a comma behind its first size. -/
  unclosed : ∀ (place : List Token) (values : List Nat) (t next : Token) (more : List Token),
    SizeDue k place values → ahead = place ++ t :: next :: more → IsSize t →
      next.kind ≠ .parenClose → (next.kind = .comma → k = .float → values ≠ []) →
        result = .error ⟨.unexpectedToken .parenClose next, start + place.length + 1⟩
  written : ∀ type : DataType, result = .ok type →
    ∃ (place : List Token) (values : List Nat) (t closing : Token) (more : List Token),
      SizeDue k place values ∧ ahead = place ++ t :: closing :: more ∧ IsSize t ∧
        closing.kind = .parenClose ∧ Sized k (values ++ [decimal t.lexeme]) type

/-! ### Runs -/

variable {limit : Nat} {p q m : Parser} {k : Keyword} {bare : DataType} {place us : List Token}
  {values : List Nat}

theorem run_size_of_ne (hKind : p.current.kind ≠ .numberLiteral) (type : DataType) :
    p.run (size type) = (.error ⟨.unexpectedToken .size p.current, p.position⟩, p) := by
  have hConsume := run_consume p .numberLiteral .size
  rw [if_neg hKind] at hConsume
  rw [size, run_bind_ok p (run_index p), run_bind_error p hConsume]

theorem run_size_of_sizeForm {n : Size} (h : SizeForm p.current n) (type : DataType) :
    p.run (size type) = (.ok n, p.next) := by
  obtain ⟨hKind, hValue⟩ := h
  have hConsume := run_consume p .numberLiteral .size
  rw [if_pos hKind] at hConsume
  rw [size, run_bind_ok p (run_index p), run_bind_ok p hConsume]
  simp [hValue]

theorem run_size_of_none (hKind : p.current.kind = .numberLiteral)
    (hNone : Size.ofText? p.current.lexeme = none) (type : DataType) :
    p.run (size type) =
      (.error ⟨.invalidSize type.keyword p.current.lexeme, p.position⟩, p.next) := by
  have hConsume := run_consume p .numberLiteral .size
  rw [if_pos hKind] at hConsume
  rw [size, run_bind_ok p (run_index p), run_bind_ok p hConsume]
  simp [hNone]

theorem run_secondSize_none (h : bare.maxSizes < 2 ∨ p.current.kind ≠ .comma) :
    p.run (secondSize bare) = (.ok none, p) := by
  unfold secondSize
  split
  · rfl
  · rename_i hMax
    have hComma : p.current.kind ≠ .comma := h.resolve_left hMax
    have hAccept := run_accept p .comma
    rw [beq_false_of_ne hComma] at hAccept
    rw [run_bind_ok p hAccept]
    rfl

/-- The last steps of a type with sizes. -/
def close (type : DataType) : ParseM DataType :=
  consume .parenClose .parenClose >>= fun _ => pure type

theorem run_close (type : DataType) (p : Parser) :
    p.run (close type) =
      if p.current.kind = .parenClose then (.ok type, p.next)
      else (.error ⟨.unexpectedToken .parenClose p.current, p.position⟩, p) := by
  have hConsume := run_consume p .parenClose .parenClose
  split
  · rename_i hKind
    rw [if_pos hKind] at hConsume
    rw [close, run_bind_ok p hConsume, run_pure]
  · rename_i hKind
    rw [if_neg hKind] at hConsume
    rw [close, run_bind_error p hConsume]

/-- What is left to do at a place where a size is due: to read it, and then `next`. -/
structure SizeAhead (k : Keyword) (values : List Nat) (bare : DataType) (p here : Parser)
    (next : Size → ParseM DataType) : Prop where
  run : p.run (sizes bare) = here.run (size bare >>= next)
  closed : ∀ (n : Size) (q : Parser), q.current.kind = .parenClose →
    ∃ type, q.run (next n) = (.ok type, q.next) ∧ Sized k (values ++ [n.toNat]) type
  unclosed : ∀ (n : Size) (q : Parser), q.current.kind ≠ .parenClose →
    (q.current.kind = .comma → k = .float → values ≠ []) →
      q.run (next n) = (.error ⟨.unexpectedToken .parenClose q.current, q.position⟩, q)

theorem sizeAhead_first (takesSizes : k = .char ∨ k = .varchar ∨ k = .float)
    (ofKeyword : DataType.ofKeyword? k = some bare) (isOpening : p.current.kind = .parenOpen) :
    SizeAhead k [] bare p p.next fun n =>
      secondSize bare >>= fun second => close (bare.sized n second) where
  run := by
    have hConsume := run_consume p .parenOpen .parenOpen
    rw [if_pos isOpening] at hConsume
    rw [sizes, parenthesized, run_bind_ok p hConsume]
    simp only [bind_assoc, pure_bind]
    rfl
  closed n q hKind := by
    rw [run_bind_ok q (run_secondSize_none (.inr (by simp [hKind]))), run_close, if_pos hKind]
    refine ⟨_, rfl, ?_⟩
    obtain rfl | rfl | rfl := takesSizes <;> cases ofKeyword <;> constructor
  unclosed n q hKind hComma := by
    have hNone : bare.maxSizes < 2 ∨ q.current.kind ≠ .comma := by
      by_cases isComma : q.current.kind = .comma
      · obtain rfl | rfl | rfl := takesSizes <;> cases ofKeyword
        · exact .inl (by decide)
        · exact .inl (by decide)
        · exact absurd rfl (hComma isComma rfl)
      · exact .inr isComma
    rw [run_bind_ok q (run_secondSize_none hNone), run_close, if_neg hKind]

theorem sizeAhead_scale {first : Size} (isOpening : p.current.kind = .parenOpen)
    (isSize : SizeForm p.next.current first) (isComma : p.next.next.current.kind = .comma) :
    SizeAhead .float [first.toNat] (.float none none) p p.next.next.next
      fun n => close (.float (some first) (some n)) where
  run := by
    have hFirst := sizeAhead_first (k := .float) (by simp) rfl isOpening
    have hAccept := run_accept p.next.next .comma
    rw [isComma] at hAccept
    rw [hFirst.run, run_bind_ok _ (run_size_of_sizeForm isSize _), secondSize, if_neg (by decide),
      bind_assoc, run_bind_ok _ hAccept]
    simp only [beq_self_eq_true, if_true, bind_assoc, pure_bind]
    rfl
  closed n q hKind := ⟨_, by rw [run_close, if_pos hKind], .scaled⟩
  unclosed n q hKind _ := by rw [run_close, if_neg hKind]

/-- The run comes to every place where a size is due, and looks at the token there. -/
theorem exists_sizeAhead (due : SizeDue k place values)
    (ofKeyword : DataType.ofKeyword? k = some bare) {t : Token} {more : List Token}
    (hAhead : p.rest ++ [p.stop] = place ++ t :: more)
    (hNumbers : ∀ u ∈ p.rest, u.kind = .numberLiteral → Lexeme.IsNumber u.lexeme.toList) :
    ∃ here next, Passes p place here ∧ SizeAhead k values bare p here next := by
  obtain ⟨us, hRest⟩ : place <+: p.rest := by
    have hPrefix : place <+: p.rest ++ [p.stop] := ⟨t :: more, hAhead.symm⟩
    rcases List.prefix_concat_iff.mp hPrefix with hAll | hFront
    · have hLength := congrArg List.length hAhead
      rw [hAll] at hLength
      simp at hLength
    · exact hFront
  cases due with
  | first takesSizes isOpening =>
    have hOpening := hRest.symm
    obtain rfl := current_of_rest hOpening
    exact ⟨p.next, _, .next hOpening, sizeAhead_first takesSizes ofKeyword isOpening⟩
  | @scale opening precision comma isOpening isSize isComma =>
    have hOpening := hRest.symm
    have hPrecision := rest_next hOpening
    have hComma := rest_next hPrecision
    have hNumber := hNumbers precision (by simp [hOpening]) isSize.number
    obtain ⟨first, hForm, hValue⟩ := exists_sizeForm isSize hNumber
    obtain rfl := current_of_rest hOpening
    obtain rfl := current_of_rest hPrecision
    obtain rfl := current_of_rest hComma
    cases ofKeyword
    rw [← hValue]
    exact ⟨p.next.next.next, _, (Passes.next hOpening).trans ((Passes.next hPrecision).trans
      (.next hComma)), sizeAhead_scale isOpening hForm isComma⟩

/-! ### Types with a parenthesis -/

theorem takesSizes_iff (ofKeyword : DataType.ofKeyword? k = some bare) :
    bare.maxSizes ≠ 0 ↔ k = .char ∨ k = .varchar ∨ k = .float := by
  cases k <;> cases ofKeyword <;> simp [DataType.maxSizes]

theorem current_of_ahead {t : Token} {more : List Token} (h : p.rest ++ [p.stop] = t :: more) :
    p.current = t := by
  obtain ⟨us, hAhead⟩ := exists_ahead p
  exact (List.cons.inj (hAhead.symm.trans h)).1

theorem passes_of_ahead {t u : Token} {more : List Token}
    (h : p.rest ++ [p.stop] = t :: u :: more) :
    Passes p [t] p.next ∧ p.next.current = u := by
  cases hRest : p.rest with
  | nil => simp [hRest] at h
  | cons t' us =>
    have hPasses := Passes.next hRest
    rw [hPasses.ahead] at h
    obtain ⟨rfl, hNext⟩ := List.cons.inj h
    exact ⟨hPasses, current_of_ahead hNext⟩

/-- A type whose keyword has an opening parenthesis behind it, with numbers as they are scanned. -/
structure Parenthesis (m : Parser) (k : Keyword) (bare : DataType) : Prop where
  stop : m.stop.kind = .endOfInput
  ahead : ∃ keyword opening us, m.rest = keyword :: opening :: us ∧
    keyword.isKeyword k = true ∧ opening.kind = .parenOpen
  ofKeyword : DataType.ofKeyword? k = some bare
  numbers : ∀ t ∈ m.rest, t.kind = .numberLiteral → Lexeme.IsNumber t.lexeme.toList

theorem Parenthesis.passes (h : Parenthesis m k bare) : ∃ keyword, Passes m [keyword] m.next := by
  obtain ⟨keyword, opening, us, hRest, -⟩ := h.ahead
  exact ⟨keyword, .next hRest⟩

theorem Parenthesis.run (h : Parenthesis m k bare) :
    m.run dataType = if bare.maxSizes = 0 then (.error ⟨.sizesNotAllowed k, m.position + 1⟩, m.next)
      else m.next.run (sizes bare) := by
  obtain ⟨keyword, opening, us, hRest, isKeyword, isOpening⟩ := h.ahead
  obtain ⟨hKind, hText⟩ := isKeyword_iff.mp isKeyword
  have hPosition : m.next.position = m.position + 1 := (Passes.next hRest).position
  have hOpening := current_of_rest (rest_next hRest)
  obtain rfl := current_of_rest hRest
  have hConsume := run_consume m .keyword .dataType
  rw [if_pos hKind] at hConsume
  rw [dataType, run_bind_ok m (run_index m), run_bind_ok m hConsume, hText, Option.bind_some,
    h.ofKeyword]
  dsimp only
  rw [run_bind_ok m.next (run_check m.next .parenOpen), hOpening, isOpening, beq_self_eq_true,
    if_pos rfl]
  split
  · rw [run_bind_ok m.next (run_index m.next), run_fail, hPosition,
      DataType.keyword_of_ofKeyword? h.ofKeyword]
  · rfl

theorem Parenthesis.isNumber (h : Parenthesis m k bare) {t : Token}
    (ht : t ∈ m.next.rest ++ [m.next.stop]) (hKind : t.kind = .numberLiteral) :
    Lexeme.IsNumber t.lexeme.toList := by
  obtain ⟨keyword, hPasses⟩ := h.passes
  rcases List.mem_append.mp ht with ht | ht
  · refine h.numbers t ?_ hKind
    rw [hPasses.rest]
    exact List.mem_append_right _ ht
  · rw [List.mem_singleton.mp ht, hPasses.stop, h.stop] at hKind
    cases hKind

theorem Parenthesis.isSize (h : Parenthesis m k bare) {t : Token} {n : Size}
    (ht : t ∈ m.next.rest ++ [m.next.stop]) (hForm : SizeForm t n) :
    IsSize t ∧ decimal t.lexeme = n.toNat := by
  obtain ⟨hKind, hValue⟩ := hForm
  exact (sizeForm_iff (h.isNumber ht hKind)).mp (.intro hKind hValue)

/-- What is known of the run at a place where a size is due and the token `t` stands. -/
structure AtPlace (m : Parser) (k : Keyword) (bare : DataType) (place : List Token)
    (values : List Nat) (t : Token) (more : List Token) (here : Parser)
    (next : Size → ParseM DataType) : Prop where
  left : SizeAhead k values bare m.next here next
  run : m.run dataType = here.run (size bare >>= next)
  position : here.position = m.position + 1 + place.length
  ahead : here.rest ++ [here.stop] = t :: more
  number : t.kind = .numberLiteral → Lexeme.IsNumber t.lexeme.toList

theorem Parenthesis.exists_atPlace (h : Parenthesis m k bare) (due : SizeDue k place values)
    {t : Token} {more : List Token} (hAhead : m.next.rest ++ [m.next.stop] = place ++ t :: more) :
    ∃ here next, AtPlace m k bare place values t more here next := by
  obtain ⟨keyword, hPasses⟩ := h.passes
  obtain ⟨here, next, hPlace, hLeft⟩ := exists_sizeAhead due h.ofKeyword hAhead
    fun u hu => h.isNumber (List.mem_append_left _ hu)
  have hTakes : bare.maxSizes ≠ 0 := by
    rw [takesSizes_iff h.ofKeyword]
    cases due with
    | first takesSizes _ => exact takesSizes
    | scale _ _ _ => simp
  refine ⟨here, next, hLeft, ?_, ?_, ?_, ?_⟩
  · rw [h.run, if_neg hTakes, hLeft.run]
  · have hPosition := hPlace.position
    rw [hPasses.position, List.length_singleton] at hPosition
    exact hPosition
  · rw [hPlace.ahead] at hAhead
    exact List.append_cancel_left hAhead
  · exact h.isNumber (by simp [hAhead])

section

variable {t u : Token} {more : List Token} {here : Parser} {next : Size → ParseM DataType}

theorem AtPlace.notNumber (h : AtPlace m k bare place values t more here next)
    (hKind : t.kind ≠ .numberLiteral) : (m.run dataType).1 =
      .error ⟨.unexpectedToken .size t, m.position + 1 + place.length⟩ := by
  have hCurrent := current_of_ahead h.ahead
  have hSize := run_size_of_ne (hCurrent ▸ hKind) bare
  rw [h.run, run_bind_error here hSize, hCurrent, h.position]

theorem AtPlace.refused (h : AtPlace m k bare place values t more here next)
    (ofKeyword : DataType.ofKeyword? k = some bare) (hKind : t.kind = .numberLiteral)
    (hSize : ¬ IsSize t) : (m.run dataType).1 =
      .error ⟨.invalidSize k t.lexeme, m.position + 1 + place.length⟩ := by
  have hNone : Size.ofText? t.lexeme = none := by
    cases hText : Size.ofText? t.lexeme with
    | none => rfl
    | some n => exact absurd ((sizeForm_iff (h.number hKind)).mp ⟨hKind, hText⟩).1 hSize
  obtain rfl := current_of_ahead h.ahead
  rw [h.run, run_bind_error here (run_size_of_none hKind hNone bare), h.position,
    DataType.keyword_of_ofKeyword? ofKeyword]

/-- A size is taken, and the token behind it is next. -/
theorem AtPlace.run_size (h : AtPlace m k bare place values t (u :: more) here next)
    (isSize : IsSize t) : ∃ n : Size, n.toNat = decimal t.lexeme ∧ here.next.current = u ∧
      here.next.position = m.position + 1 + place.length + 1 ∧
      m.run dataType = here.next.run (next n) := by
  obtain ⟨n, hForm, hValue⟩ := exists_sizeForm isSize (h.number isSize.number)
  obtain ⟨hPasses, hCurrent⟩ := passes_of_ahead h.ahead
  obtain rfl := current_of_ahead h.ahead
  refine ⟨n, hValue, hCurrent, ?_, ?_⟩
  · rw [hPasses.position, h.position, List.length_singleton]
  · rw [h.run, run_bind_ok here (run_size_of_sizeForm hForm bare)]

theorem AtPlace.taken (h : AtPlace m k bare place values t (u :: more) here next)
    (isSize : IsSize t) (isClosing : u.kind = .parenClose) :
    ∃ type, (m.run dataType).1 = .ok type ∧ Sized k (values ++ [decimal t.lexeme]) type := by
  obtain ⟨n, hValue, rfl, -, hRun⟩ := h.run_size isSize
  obtain ⟨type, hClose, hSized⟩ := h.left.closed n here.next isClosing
  rw [hValue] at hSized
  exact ⟨type, by rw [hRun, hClose], hSized⟩

theorem AtPlace.unclosed (h : AtPlace m k bare place values t (u :: more) here next)
    (isSize : IsSize t) (notClosing : u.kind ≠ .parenClose)
    (noMore : u.kind = .comma → k = .float → values ≠ []) : (m.run dataType).1 =
      .error ⟨.unexpectedToken .parenClose u, m.position + 1 + place.length + 1⟩ := by
  obtain ⟨n, -, rfl, hPosition, hRun⟩ := h.run_size isSize
  rw [hRun, h.left.unclosed n here.next notClosing noMore, hPosition]

end

theorem Parenthesis.written (h : Parenthesis m k bare) {type : DataType}
    (hOk : (m.run dataType).1 = .ok type) :
    ∃ place values t closing more, SizeDue k place values ∧
      m.next.rest ++ [m.next.stop] = place ++ t :: closing :: more ∧ IsSize t ∧
        closing.kind = .parenClose ∧ Sized k (values ++ [decimal t.lexeme]) type := by
  have hTakes : bare.maxSizes ≠ 0 := by
    intro hNone
    rw [h.run, if_pos hNone] at hOk
    cases hOk
  rw [h.run, if_neg hTakes] at hOk
  obtain ⟨keyword, hKeyword⟩ := h.passes
  have hReady : Ready m.next.rest.length m.next := ⟨by rw [hKeyword.stop, h.stop], Nat.le_refl _⟩
  have hReads : Reads m.next.rest.length (sizes bare) (SizesForm bare) anyToken := reads_sizes bare
  obtain ⟨_, hPasses, opening, _, closing, rfl, isOpening,
    ⟨t, us, n, second, rfl, hFirst, hSecond, rfl⟩, isClosing⟩ :=
    (hReads m.next hReady).sound (Prod.ext hOk rfl)
  have hAhead := hPasses.ahead
  obtain ⟨isSize, hValue⟩ := h.isSize (by simp [hAhead]) hFirst
  have takesSizes := (takesSizes_iff h.ofKeyword).mp hTakes
  have ofKeyword := h.ofKeyword
  rcases hSecond with ⟨comma, u, scale, rfl, hTwo, isComma, hScale, rfl⟩ | ⟨rfl, rfl⟩
  · obtain rfl | rfl | rfl := takesSizes <;> cases ofKeyword
    · exact absurd hTwo (by decide)
    · exact absurd hTwo (by decide)
    · obtain ⟨isScale, hScaleValue⟩ := h.isSize (by simp [hAhead]) hScale
      refine ⟨[opening, t, comma], _, u, closing, _, .scale isOpening isSize isComma, hAhead,
        isScale, isClosing, ?_⟩
      rw [hValue, hScaleValue]
      exact .scaled
  · refine ⟨[opening], [], t, closing, _, .first takesSizes isOpening, hAhead, isSize, isClosing, ?_⟩
    rw [hValue]
    obtain rfl | rfl | rfl := takesSizes <;> cases ofKeyword <;> constructor

theorem lexeme_of_typeCause {front more : List Token} {k : Keyword} {lexeme : String} {t : Token}
    (h : TypeCause front (.invalidSize k lexeme) t more) :
    lexeme = t.lexeme ∧ Size.ofText? t.lexeme = none := by
  cases h with
  | invalidSize _ _ _ _ noSize => exact ⟨rfl, noSize⟩

/-- The error says itself that there is no size at its index. -/
theorem Parenthesis.not_isSize (h : Parenthesis m k bare) {t : Token} {more : List Token}
    {place : List Token} (hAhead : m.next.rest ++ [m.next.stop] = place ++ t :: more)
    (hError : (m.run dataType).1 =
      .error ⟨.invalidSize k t.lexeme, m.position + 1 + place.length⟩) : ¬ IsSize t := by
  intro isSize
  obtain ⟨keyword, hKeyword⟩ := h.passes
  have hReady : Ready m.rest.length m := ⟨h.stop, Nat.le_refl _⟩
  have hRun : m.run dataType = (.error ⟨.invalidSize k t.lexeme, m.position + 1 + place.length⟩,
      (m.run dataType).2) := Prod.ext hError rfl
  have hBlamed := blames_dataType m hReady
  rw [hRun] at hBlamed
  cases hBlamed with
  | @error _ _ _ front more' u _ ahead index _ charged =>
    have hIndex : m.position + 1 + place.length = m.position + front.length := index
    have hAll := hKeyword.ahead
    rw [hAhead, ahead, ← List.append_assoc] at hAll
    have hLengths : front.length = ([keyword] ++ place).length := by
      rw [List.length_append, List.length_singleton]
      omega
    obtain ⟨rfl, -⟩ := List.cons.inj (List.append_inj_right hAll hLengths)
    obtain ⟨-, hNone⟩ := lexeme_of_typeCause charged
    have hMem : u ∈ m.next.rest ++ [m.next.stop] := by
      simp [hAhead]
    obtain ⟨n, hForm, -⟩ := exists_sizeForm isSize (h.isNumber hMem isSize.number)
    obtain ⟨-, hSome⟩ := hForm
    rw [hNone] at hSome
    cases hSome

theorem Parenthesis.sizesExact (h : Parenthesis m k bare) :
    SizesExact k (m.position + 1) (m.next.rest ++ [m.next.stop]) (m.run dataType).1 where
  takesNone takesNone := by
    have hNone : bare.maxSizes = 0 := by
      have ofKeyword := h.ofKeyword
      obtain rfl | rfl | rfl := takesNone <;> cases ofKeyword <;> rfl
    rw [h.run, if_pos hNone]
  notNumber place values t more due hAhead hKind := by
    obtain ⟨here, next, hPlace⟩ := h.exists_atPlace due hAhead
    exact hPlace.notNumber hKind
  refused place values t more due hAhead hKind := by
    obtain ⟨here, next, hPlace⟩ := h.exists_atPlace due hAhead
    exact ⟨h.not_isSize hAhead, hPlace.refused h.ofKeyword hKind⟩
  taken place values t closing more due hAhead isSize isClosing := by
    obtain ⟨here, next, hPlace⟩ := h.exists_atPlace due hAhead
    exact hPlace.taken isSize isClosing
  unclosed place values t u more due hAhead isSize notClosing noMore := by
    obtain ⟨here, next, hPlace⟩ := h.exists_atPlace due hAhead
    exact hPlace.unclosed isSize notClosing noMore
  written type hOk := h.written hOk

end SqlStore.Parser
