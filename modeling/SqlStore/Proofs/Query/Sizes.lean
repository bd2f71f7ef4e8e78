import SqlStore.Proofs.Parser.Sizes
import SqlStore.Proofs.Query.RoundTrip

/-!
# Sizes in texts

Wherever a statement of a text comes to the type of a column with a parenthesis, its sizes are exact:
the numbers that the scanner has found are what the table gets, or the statement is refused at the
token that is wrong. What is printed of such a type is read as the same type.
-/
namespace SqlStore
open SqlStore.Parser
set_option autoImplicit false

theorem wellFormed_of_sized {k : Keyword} {values : List Nat} {type : DataType}
    (h : Sized k values type) : type.WellFormed := by
  cases h <;> simp [DataType.WellFormed]

/-- The text is that of the type, and of nothing else. -/
def ReadsAs (text : String) (type : DataType) : Prop :=
  ∃ tokens after, tokenize text = .ok tokens ∧
    (ofTokens tokens).run dataType = (.ok type, after) ∧ after.rest = []

theorem readsAs_text {type : DataType} (h : type.WellFormed) : ReadsAs type.text type := by
  obtain ⟨ts, hForm, hScanned⟩ := spells_type h 0 [] [] (by simp [Breaks]) .done
  rw [List.append_nil, List.append_nil] at hScanned
  have hRest := @rest_ofTokens ts 0 type.text.utf8ByteSize _ hScanned
  have hReady := ready_ofTokens (ts ++ [Token.endAt type.text.utf8ByteSize])
  have hEnd : (ofTokens (ts ++ [Token.endAt type.text.utf8ByteSize])).stop.kind ≠ .parenOpen := by
    simp [hReady.stop]
  obtain ⟨after, hRun, hPasses⟩ := (reads_dataType _ hReady).complete
    (hRest.trans (List.append_nil ts).symm) hForm hEnd
  refine ⟨_, after, tokenize_iff.mpr ⟨ts, hScanned, rfl⟩, hRun, ?_⟩
  simpa [hRest] using hPasses.rest

/-- The end mark is the last token, and no other is one. -/
theorem exists_scanned_of_tokenize {sql : String} {us more : List Token} {t : Token}
    (h : tokenize sql = .ok (us ++ t :: more)) (hKind : t.kind ≠ .endOfInput) :
    ∃ back, more = back ++ [Token.endAt sql.utf8ByteSize] ∧
      Scanned 0 sql.toList (us ++ t :: back) := by
  obtain ⟨scanned, hScanned, hAll⟩ := tokenize_iff.mp h
  obtain rfl | ⟨back, e, rfl⟩ := List.eq_nil_or_concat' more
  · obtain ⟨-, hLast⟩ := List.append_inj' hAll rfl
    rw [List.singleton_inj.mp hLast] at hKind
    exact absurd rfl hKind
  · rw [← List.cons_append, ← List.append_assoc] at hAll
    obtain ⟨rfl, hEnd⟩ := List.append_inj' hAll rfl
    exact ⟨back, by rw [List.singleton_inj.mp hEnd], hScanned⟩

/-- A parser at a position of tokens that a text has. -/
theorem standing_of_scanned {offset finish : Nat} {cs : List Char} {tokens us vs : List Token}
    (h : Scanned offset cs (us ++ vs)) (hTokens : tokens = us ++ vs ++ [Token.endAt finish]) :
    standing tokens us.length = ⟨us.length, vs, Token.endAt finish, []⟩ := by
  have hLast : tokens.getLast?.any isEnd = true := by
    rw [hTokens, List.getLast?_concat]
    rfl
  have hDrop : (withEnd tokens).drop us.length = vs ++ Token.endAt finish :: [] := by
    rw [withEnd, if_pos hLast, hTokens, List.append_assoc, List.drop_left]
  refine standing_of_drop hDrop (fun t ht => ?_) rfl
  simpa [isEnd] using h.kind_ne_endOfInput (List.mem_append_right us ht)

/-- What the sizes of a type at the position `index` come to, for the statement at the cursor. -/
structure SizesOf (tokens : List Token) (cursor index : Nat) (columns : List Column) (name : String)
    (k : Keyword) : Prop where
  inStatement : InStatement tokens index cursor columns name
  exact : SizesExact k (index + 1) (tokens.drop (index + 1)) (typeAt tokens index)
  readBack : ∀ type : DataType, typeAt tokens index = .ok type → ReadsAs type.text type

theorem sizesOf_of_tokenize {sql : String} {front before more : List Token}
    {keyword opening : Token} {columns : List Column} {name : String} {k : Keyword} {bare : DataType}
    (hText : tokenize sql = .ok (front ++ before ++ keyword :: opening :: more))
    (hBefore : BeforeType before columns name) (isKeyword : keyword.isKeyword k = true)
    (ofKeyword : DataType.ofKeyword? k = some bare) (isOpening : opening.kind = .parenOpen) :
    SizesOf (front ++ before ++ keyword :: opening :: more) front.length
      (front.length + before.length) columns name k := by
  obtain ⟨back, rfl, hScanned⟩ := exists_scanned_of_tokenize
    (by rw [← List.append_cons]; exact hText) (by simp [isOpening])
  rw [← List.append_cons] at hScanned
  generalize hTokens : front ++ before ++ keyword :: opening :: (back ++ [_]) = tokens
  have hCursor : standing tokens front.length = ⟨front.length,
      before ++ keyword :: opening :: back, Token.endAt sql.utf8ByteSize, []⟩ :=
    standing_of_scanned (by rwa [List.append_assoc] at hScanned) (by simp [← hTokens])
  have hIndex : standing tokens (front ++ before).length = ⟨(front ++ before).length,
      keyword :: opening :: back, Token.endAt sql.utf8ByteSize, []⟩ :=
    standing_of_scanned hScanned (by simp [← hTokens])
  rw [List.length_append] at hIndex
  have hNumbers : ∀ t ∈ keyword :: opening :: back, t.kind = .numberLiteral →
      Lexeme.IsNumber t.lexeme.toList := by
    intro t ht hKind
    have hClass := hScanned.class_of_mem (List.mem_append_right _ ht)
    rwa [hKind] at hClass
  have hParenthesis : Parenthesis (standing tokens (front.length + before.length)) k bare := by
    rw [hIndex]
    exact ⟨rfl, ⟨keyword, opening, back, rfl, isKeyword, isOpening⟩, ofKeyword, hNumbers⟩
  have hExact : SizesExact k (front.length + before.length + 1)
      (tokens.drop (front.length + before.length + 1))
      (typeAt tokens (front.length + before.length)) := by
    have hSizes := hParenthesis.sizesExact
    rw [typeAt, ← List.drop_drop, ← List.length_append, ← hTokens, List.drop_left, hTokens,
      List.length_append, hIndex]
    rwa [hIndex] at hSizes
  refine ⟨inStatement_of_beforeType ?_ hBefore (by rw [hCursor]), hExact, fun type hOk => ?_⟩
  · obtain ⟨more, hMore⟩ := exists_withEnd_eq tokens
    rw [hMore, ← hTokens]
    simp only [List.length_append, List.length_cons]
    omega
  · obtain ⟨place, values, t, closing, more, -, -, -, -, hSized⟩ := hExact.written type hOk
    exact readsAs_text (wellFormed_of_sized hSized)

/-- The second column has a scale that is one too large, behind a column with leading zeros. -/
theorem sizesOf_of_tokenize_scale :
    let word := fun (kind : TokenKind) (lexeme : String) (offset : Nat) =>
      (⟨kind, lexeme, offset⟩ : Token)
    let front := [word .terminator ";" 0]
    let heading := [word .keyword "CREATE" 1, word .keyword "TABLE" 8, word .identifier "t" 14,
      word .parenOpen "(" 16]
    let sized := [word .keyword "CHAR" 19, word .parenOpen "(" 23, word .numberLiteral "007" 24,
      word .parenClose ")" 27]
    let us := word .identifier "a" 17 :: sized ++ [] ++ [word .comma "," 28]
    let before := heading ++ us ++ [word .identifier "b" 30]
    let tokens := front ++ before ++ word .keyword "FLOAT" 32 :: word .parenOpen "(" 37 ::
      [word .numberLiteral "2" 38, word .comma "," 39, word .numberLiteral "4294967296" 41,
        word .parenClose ")" 51, word .parenClose ")" 52, Token.endAt 53]
    tokenize ";CREATE TABLE t (a CHAR(007), b FLOAT(2, 4294967296))" = .ok tokens ∧
      BeforeType before [⟨"a", .char (some 7), []⟩] "b" ∧
      SizesOf tokens 1 12 [⟨"a", .char (some 7), []⟩] "b" .float ∧
      (statementAt tokens 1).1 = .error ⟨.invalidSize .float "4294967296", 16⟩ := by
  intro word front heading sized us before tokens
  have hText : tokenize ";CREATE TABLE t (a CHAR(007), b FLOAT(2, 4294967296))" = .ok tokens := by
    decide +kernel
  have hColumn : Grammar.ColumnForm (word .identifier "a" 17 :: sized ++ [])
      ⟨"a", .char (some 7), []⟩ :=
    .intro rfl (.char (by decide) (.sized rfl ⟨rfl, by decide⟩ rfl)) .nil
  have hBefore : BeforeType before [⟨"a", .char (some 7), []⟩] "b" :=
    @BeforeType.intro heading us (word .identifier "b" 30) ([⟨"a", .char (some 7), []⟩], [])
      (.intro (by decide) (by decide) rfl rfl) (.comma ⟨.first hColumn, by decide⟩ rfl) rfl
  have hSizes : SizesOf tokens 1 12 [⟨"a", .char (some 7), []⟩] "b" .float :=
    sizesOf_of_tokenize hText hBefore (by decide) rfl rfl
  refine ⟨hText, hBefore, hSizes, hSizes.inStatement.call.error _ ?_⟩
  have isSize : IsSize (word .numberLiteral "2" 38) :=
    ⟨rfl, by decide, by decide, by decide⟩
  have hDue : SizeDue .float [word .parenOpen "(" 37, word .numberLiteral "2" 38, word .comma "," 39]
      [decimal "2"] := .scale rfl isSize rfl
  refine (hSizes.exact.refused _ _ (word .numberLiteral "4294967296" 41) _ hDue rfl rfl).mpr ?_
  exact fun isSize => absurd isSize.bounded (by decide)

end SqlStore
