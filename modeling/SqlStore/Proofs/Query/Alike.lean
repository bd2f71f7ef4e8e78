import SqlStore.Proofs.Parser.Alike
import SqlStore.Proofs.Token.Respaced
import SqlStore.Query

/-!
# Texts that are read alike

The blanks of a text do not matter. If two texts have the same tokens but for their offsets and for
the blanks between the words of a keyword, they are read as the same statements, or with errors that
are alike; and the blanks between the tokens of a text may be exchanged for others, because the text
keeps its tokens then.
-/
namespace SqlStore
set_option autoImplicit false

/-- Errors of parsing that are alike. -/
inductive QueryError.Alike : QueryError → QueryError → Prop
  | parse {d e : ParseError} (errors : d.Alike e) : Alike (.parse d) (.parse e)

/-- Two texts are read alike, as a statement and as a script. -/
structure ReadAlike (a b : String) : Prop where
  statement : SameOutcome QueryError.Alike (Statement.ofText a) (Statement.ofText b)
  script : SameOutcome QueryError.Alike (Script.ofText a) (Script.ofText b)

/-! ### Tokens that respell others -/

theorem exists_words_of_isKeyword {lexeme : List Char} (h : Lexeme.IsKeyword lexeme) :
    ∃ k : Keyword, Text.words lexeme = k.words := by
  cases h with
  | @single k _ words =>
    exact ⟨k, (Lexeme.words_of_isWord (Lexeme.isWord_of_words words)).trans words.symm⟩
  | @compound k head tail gap words blank =>
    obtain ⟨hHead, hTail⟩ := Lexeme.isWord_of_words_pair words
    exact ⟨k, (Lexeme.words_compound hHead blank hTail).trans words.symm⟩

theorem Token.Respells.alike {t u : Token} (h : t.Respells u)
    (hKeyword : t.kind = .keyword → Lexeme.IsKeyword t.lexeme.toList) : t.Alike u := by
  refine ⟨h.kind, h.lexeme.imp_right ?_⟩
  rintro ⟨hKind, hWords⟩
  obtain ⟨k, hk⟩ := exists_words_of_isKeyword (hKeyword hKind)
  exact ⟨hKind, k, Keyword.ofChars?_eq_some_iff.mpr hk,
    Keyword.ofChars?_eq_some_iff.mpr (hWords.symm.trans hk)⟩

/-- Only the tokens of a text are known to be what their kinds say. -/
theorem alike_of_tokenize {s : String} {ts us : List Token} (hTokens : tokenize s = .ok ts)
    (h : List.Forall₂ Token.Respells ts us) : List.Forall₂ Token.Alike ts us := by
  obtain ⟨tokens, hScanned, rfl⟩ := tokenize_iff.mp hTokens
  have hKeyword : ∀ t ∈ tokens ++ [Token.endAt s.utf8ByteSize], t.kind = .keyword →
      Lexeme.IsKeyword t.lexeme.toList := by
    intro t ht hKind
    rcases List.mem_append.mp ht with hMem | hEnd
    · have hClass := hScanned.class_of_mem hMem
      rwa [hKind] at hClass
    · rw [List.mem_singleton.mp hEnd] at hKind
      cases hKind
  exact ((List.forall₂_and_left _ _).mpr ⟨hKeyword, h⟩).imp fun _ _ hBoth => hBoth.2.alike hBoth.1

/-! ### Texts -/

theorem SameOutcome.mapError {α : Type} {x y : Except ParseError α}
    (h : SameOutcome ParseError.Alike x y) :
    SameOutcome QueryError.Alike (x.mapError .parse) (y.mapError .parse) := by
  cases h with
  | ok a => exact .ok a
  | error errors => exact .error (.parse errors)

theorem readAlike_of_alike {q q' : String} {ts us : List Token} (h : tokenize q = .ok ts)
    (h' : tokenize q' = .ok us) (hAlike : List.Forall₂ Token.Alike ts us) : ReadAlike q q' := by
  refine ⟨?_, ?_⟩
  · rw [Statement.ofText, Statement.ofText, readTokens_of_ok h, readTokens_of_ok h']
    exact (Parser.sameOutcome_statement hAlike).mapError
  · rw [Script.ofText, Script.ofText, readTokens_of_ok h, readTokens_of_ok h']
    exact (Parser.sameOutcome_script hAlike).mapError

theorem LaidOut.readAlike {q q' : String} {lead lead' : List Char} {pieces pieces' : List Piece}
    (h : LaidOut q lead pieces) (h' : LaidOut q' lead' pieces')
    (hRespaced : Piece.Respaced pieces pieces') : ReadAlike q q' := by
  have hRespells : List.Forall₂ Token.Respells
      (Piece.placed (Text.byteLength lead) pieces ++ [Token.endAt q.utf8ByteSize])
      (Piece.placed (Text.byteLength lead') pieces' ++ [Token.endAt q'.utf8ByteSize]) :=
    List.rel_append (respells_placed hRespaced _ _) (.cons ⟨rfl, .inl rfl⟩ .nil)
  exact readAlike_of_alike h.tokens h'.tokens (alike_of_tokenize h.tokens hRespells)

/-- Neither offsets nor the blanks inside keywords change what tokens are read as, so texts whose
tokens differ in these only are read alike. Every text that can be scanned is laid out in lexemes and
blanks, and these blanks may be exchanged for others if lexemes that stood apart still do. -/
theorem readings_alike :
    (∀ {ts us : List Token}, List.Forall₂ Token.Alike ts us →
      SameOutcome ParseError.Alike (Statement.ofTokens ts) (Statement.ofTokens us) ∧
        SameOutcome ParseError.Alike (Script.ofTokens ts) (Script.ofTokens us)) ∧
    (∀ {q q' : String} {ts us : List Token}, tokenize q = .ok ts → tokenize q' = .ok us →
      List.Forall₂ Token.Respells ts us → ReadAlike q q') ∧
    (∀ {q : String} {ts : List Token}, tokenize q = .ok ts →
      ∃ lead pieces, LaidOut q lead pieces) ∧
    ∀ {q : String} {lead lead' : List Char} {pieces pieces' : List Piece},
      LaidOut q lead pieces → (∀ c ∈ lead', Text.isBlank c = true) →
      Piece.Respaced pieces pieces' →
        LaidOut (String.ofList (lead' ++ Piece.joined pieces')) lead' pieces' ∧
          ReadAlike q (String.ofList (lead' ++ Piece.joined pieces')) := by
  refine ⟨fun h => ⟨Parser.sameOutcome_statement h, Parser.sameOutcome_script h⟩, ?_,
    exists_laidOut, ?_⟩
  · intro q q' ts us hTokens hOther hRespells
    exact readAlike_of_alike hTokens hOther (alike_of_tokenize hTokens hRespells)
  · intro q lead lead' pieces pieces' hLaid hLead hRespaced
    have hOther := hLaid.respaced hLead hRespaced
    exact ⟨hOther, hLaid.readAlike hOther hRespaced⟩

/-- A keyword spelled in two ways as the token that was found; a statement with other blanks inside
and outside of a keyword; and a text whose error moves with its blanks. -/
theorem readings_alike_sample :
    SameOutcome ParseError.Alike
        (Statement.ofTokens [⟨.keyword, "CREATE", 0⟩, ⟨.keyword, "NOT NULL", 7⟩])
        (Statement.ofTokens [⟨.keyword, "CREATE", 3⟩, ⟨.keyword, "NOT\t\nNULL", 11⟩]) ∧
      ReadAlike "CREATE TABLE t (a INT NOT NULL)" "CREATE TABLE t(a INT\nNOT \t NULL) " ∧
      (∃ lead pieces, LaidOut "t <1" lead pieces) ∧
      ReadAlike "t <1" "\tt\n\n< 1" := by
  have hBlank : ∀ c ∈ [' ', '\t', '\n'], Text.isBlank c = true := List.all_eq_true.mp (by decide)
  have hFirst : tokenize "CREATE TABLE t (a INT NOT NULL)" =
      .ok [⟨.keyword, "CREATE", 0⟩, ⟨.keyword, "TABLE", 7⟩, ⟨.identifier, "t", 13⟩,
        ⟨.parenOpen, "(", 15⟩, ⟨.identifier, "a", 16⟩, ⟨.keyword, "INT", 18⟩,
        ⟨.keyword, "NOT NULL", 22⟩, ⟨.parenClose, ")", 30⟩, .endAt 31] := by decide +kernel
  have hSecond : tokenize "CREATE TABLE t(a INT\nNOT \t NULL) " =
      .ok [⟨.keyword, "CREATE", 0⟩, ⟨.keyword, "TABLE", 7⟩, ⟨.identifier, "t", 13⟩,
        ⟨.parenOpen, "(", 14⟩, ⟨.identifier, "a", 15⟩, ⟨.keyword, "INT", 17⟩,
        ⟨.keyword, "NOT \t NULL", 21⟩, ⟨.parenClose, ")", 31⟩, .endAt 33] := by decide +kernel
  have hTokens : tokenize "t <1" =
      .ok [⟨.identifier, "t", 0⟩, ⟨.comparator, "<", 2⟩, ⟨.numberLiteral, "1", 3⟩, .endAt 4] := by
    decide +kernel
  have hLaid : LaidOut "t <1" [] [⟨.identifier, ['t'], [' ']⟩, ⟨.comparator, ['<'], []⟩,
      ⟨.numberLiteral, ['1'], []⟩] :=
    ⟨by decide, by simp, by simp [hBlank], hTokens⟩
  have hRespaced : Piece.Respaced
      [⟨.identifier, ['t'], [' ']⟩, ⟨.comparator, ['<'], []⟩, ⟨.numberLiteral, ['1'], []⟩]
      [⟨.identifier, ['t'], ['\n', '\n']⟩, ⟨.comparator, ['<'], [' ']⟩,
        ⟨.numberLiteral, ['1'], []⟩] :=
    .cons (by simp [hBlank]) nofun (.cons (by simp [hBlank]) nofun (.last (by simp)))
  have hSpelled : Token.Alike ⟨.keyword, "NOT NULL", 7⟩ ⟨.keyword, "NOT\t\nNULL", 11⟩ :=
    ⟨rfl, .inr ⟨rfl, .notNull, by decide +kernel, by decide +kernel⟩⟩
  have hLead : ∀ c ∈ ['\t'], Text.isBlank c = true := by simp [hBlank]
  exact ⟨(readings_alike.1 (.cons ⟨rfl, .inl rfl⟩ (.cons hSpelled .nil))).1,
    readings_alike.2.1 hFirst hSecond (by decide +kernel), readings_alike.2.2.1 hTokens,
    (readings_alike.2.2.2 hLaid hLead hRespaced).2⟩

end SqlStore
