import SqlStore.Proofs.Token.Front
import SqlStore.Proofs.Token.Joined

/-!
# Other blanks

The lexemes of a text may be set apart by other blanks than they were, as long as those that stood
apart still do: then the text has the same tokens at other offsets. Lexemes that stood side by side
may do so again, because a lexeme ends by the first character of what comes after it.
-/
namespace SqlStore
open Lexeme TokenKind
set_option autoImplicit false

/-! ### The first character after a lexeme -/

theorem ne_point_of_class {kind : TokenKind} {c : Char} {cs : List Char} (h : kind.Class (c :: cs)) :
    c ≠ '.' := by
  rintro rfl
  cases ofStart?_of_shape (shape_of_class h)

theorem TokenKind.Stands.of_first {kind : TokenKind} {lexeme cs : List Char} {c : Char}
    (h : kind.Stands lexeme (c :: cs)) (hBlank : Text.isBlank c = false) (hPoint : c ≠ '.')
    (ds : List Char) : kind.Stands lexeme (c :: ds) := by
  have hWord : ∀ {p : Char → Bool}, StopsAt p (c :: cs) → StopsAt p (c :: ds) := fun hStop =>
    stopsAt_cons.mpr (stopsAt_cons.mp hStop)
  refine ⟨h.isClass, ?_, fun hKind => ?_⟩
  · have hEnds := h.ends
    have hClass := h.isClass
    cases kind with
    | keyword | identifier | booleanLiteral | nullLiteral | connective => exact hWord hEnds
    | numberLiteral =>
      refine ⟨hWord hEnds.1, fun _ => ?_⟩
      rintro ⟨d, rest, hRest, -⟩
      exact hPoint (List.cons.inj hRest).1
    | comparator => exact EndsComparator.of_first hClass hEnds
    | _ => trivial
  · subst hKind
    rw [startsKeyword_iff h.isClass (hWord h.ends)]
    rintro ⟨k, gap, tail, back, hText, -, ⟨hSome, hGap⟩, -⟩
    obtain ⟨b, gap, rfl⟩ := List.exists_cons_of_ne_nil hSome
    obtain ⟨rfl, -⟩ := List.cons.inj hText
    rw [hGap c List.mem_cons_self] at hBlank
    cases hBlank

/-! ### Pieces that stand -/

namespace Piece

/-- Each of the joined pieces stands where it is, and nothing but blanks is between them. -/
inductive Stand : List Piece → Prop
  | nil : Stand []
  | cons {p : Piece} {rest : List Piece}
      (stands : p.kind.Stands p.lexeme (p.gap ++ joined rest))
      (blank : ∀ c ∈ p.gap, Text.isBlank c = true) (others : Stand rest) : Stand (p :: rest)

theorem Stand.blank {pieces : List Piece} (h : Stand pieces) :
    ∀ p ∈ pieces, ∀ c ∈ p.gap, Text.isBlank c = true := by
  induction h with
  | nil => simp
  | cons _ blank _ ih => exact List.forall_mem_cons.mpr ⟨blank, ih⟩

theorem Stand.scanned {pieces : List Piece} (h : Stand pieces) (offset : Nat) :
    Scanned offset (joined pieces) (placed offset pieces) := by
  induction h generalizing offset with
  | nil => exact .done
  | cons stands blank _ ih => exact .token stands (Scanned.blanks blank (ih _))

/-- Every text that can be scanned consists of blanks and pieces that stand. -/
theorem exists_stand {offset : Nat} {cs : List Char} {tokens : List Token}
    (h : Scanned offset cs tokens) :
    ∃ lead pieces, cs = lead ++ joined pieces ∧ (∀ c ∈ lead, Text.isBlank c = true) ∧
      Stand pieces := by
  induction h with
  | done => exact ⟨[], [], rfl, by simp, .nil⟩
  | @blank _ c _ _ isBlank _ ih =>
    obtain ⟨lead, pieces, rfl, hLead, hStand⟩ := ih
    exact ⟨c :: lead, pieces, rfl, List.forall_mem_cons.mpr ⟨isBlank, hLead⟩, hStand⟩
  | @token _ kind lexeme _ _ stands _ ih =>
    obtain ⟨lead, pieces, rfl, hLead, hStand⟩ := ih
    exact ⟨[], ⟨kind, lexeme, lead⟩ :: pieces, rfl, by simp, .cons stands hLead hStand⟩

/-- Pieces that are scanned to themselves stand, whatever blanks come before them. -/
theorem stand_of_scanned {pieces : List Piece} {offset place : Nat} {lead : List Char}
    (hLead : ∀ c ∈ lead, Text.isBlank c = true)
    (hGaps : ∀ p ∈ pieces, ∀ c ∈ p.gap, Text.isBlank c = true)
    (h : Scanned offset (lead ++ joined pieces) (placed place pieces)) : Stand pieces := by
  induction pieces generalizing offset place lead with
  | nil => exact .nil
  | cons p rest ih =>
    obtain ⟨hGap, hOthers⟩ := List.forall_mem_cons.mp hGaps
    obtain ⟨lead', after, next, hText, hLead', hStands, hAfter⟩ := h.exists_next
    rw [String.toList_ofList] at hText hStands
    obtain ⟨-, hText⟩ := run_append_inj hLead (stopsAt_isBlank_of_class hStands.isClass) hLead'
      (stopsAt_isBlank_of_class hStands.isClass) hText
    obtain rfl := List.append_cancel_left hText
    exact .cons hStands hGap (ih hGap hOthers hAfter)

/-- The same lexemes with other blanks after them. Only after the last one may all blanks go. -/
inductive Respaced : List Piece → List Piece → Prop
  | nil : Respaced [] []
  | last {kind : TokenKind} {lexeme gap gap' : List Char}
      (blank : ∀ c ∈ gap', Text.isBlank c = true) :
      Respaced [⟨kind, lexeme, gap⟩] [⟨kind, lexeme, gap'⟩]
  | cons {kind : TokenKind} {lexeme gap gap' : List Char} {q q' : Piece} {rest rest' : List Piece}
      (blank : ∀ c ∈ gap', Text.isBlank c = true) (apart : gap' = [] → gap = [])
      (others : Respaced (q :: rest) (q' :: rest')) :
      Respaced (⟨kind, lexeme, gap⟩ :: q :: rest) (⟨kind, lexeme, gap'⟩ :: q' :: rest')

theorem Respaced.head {q q' : Piece} {rest rest' : List Piece}
    (h : Respaced (q :: rest) (q' :: rest')) : q'.kind = q.kind ∧ q'.lexeme = q.lexeme := by
  cases h <;> exact ⟨rfl, rfl⟩

variable {kind : TokenKind} {lexeme gap : List Char}

theorem stands_last {rest : List Char} (h : kind.Stands lexeme rest)
    (hGap : ∀ c ∈ gap, Text.isBlank c = true) : kind.Stands lexeme (gap ++ joined []) :=
  stands_of_separate (p := ⟨kind, lexeme, gap⟩) ⟨by simpa using hGap, .singleton _⟩
    ⟨by simpa using h.isClass, .singleton _⟩

/-- A lexeme may move away from the next one, but not so that the two become a keyword. -/
theorem stands_apart {gap' after : List Char} {q : Piece} {rest : List Piece}
    (h : Stand (⟨kind, lexeme, gap⟩ :: q :: rest)) (hGap : IsBlankRun gap')
    (hNext : q.kind.Stands q.lexeme after) :
    kind.Stands lexeme (gap' ++ (q.lexeme ++ after)) := by
  have hFirst : kind.Class lexeme := by
    cases h with
    | cons stands => exact stands.isClass
  have hBreaks : Breaks (gap' ++ (q.lexeme ++ after)) := by
    intro c hc
    rw [List.head?_append_of_ne_nil _ hGap.1] at hc
    exact breaks_of_isBlank hGap.2 c hc
  refine ⟨hFirst, hBreaks.ends _ _, fun hKind => ?_⟩
  have hNot := (h.scanned 0).not_completesKeyword hKind
  rw [String.toList_ofList, String.toList_ofList] at hNot
  rw [hKind] at hFirst
  rwa [startsKeyword_gap_iff hFirst hGap hNext]

theorem Stand.respaced {pieces pieces' : List Piece} (h : Stand pieces)
    (hRespaced : Respaced pieces pieces') : Stand pieces' := by
  induction hRespaced with
  | nil => exact .nil
  | last blank =>
    cases h with
    | cons stands => exact .cons (stands_last stands blank) blank .nil
  | @cons kind lexeme gap gap' q q' rest rest' blank apart others ih =>
    obtain ⟨hKind, hLexeme⟩ := others.head
    have hAll := h
    cases h with
    | cons stands _ hOthers =>
      have hTail := ih hOthers
      have hNext : q.kind.Stands q.lexeme (q'.gap ++ joined rest') := by
        cases hTail with
        | cons stands' => rwa [hKind, hLexeme] at stands'
      refine .cons ?_ blank hTail
      dsimp only at stands ⊢
      rw [joined, hLexeme]
      by_cases hGap : gap' = []
      · obtain ⟨c, cs, hFirst, hBlank⟩ := exists_start hNext.isClass
        have hPoint : c ≠ '.' := ne_point_of_class (hFirst ▸ hNext.isClass)
        rw [hGap, hFirst]
        rw [apart hGap, joined, hFirst] at stands
        exact stands.of_first hBlank hPoint _
      · exact stands_apart hAll ⟨hGap, blank⟩ hNext

end Piece

/-! ### Tokens of respaced texts -/

/-- The tokens differ in their offsets, and as keywords in the blanks between their words. -/
structure Token.Respells (t u : Token) : Prop where
  kind : t.kind = u.kind
  lexeme : t.lexeme = u.lexeme ∨
    t.kind = .keyword ∧ Text.words t.lexeme.toList = Text.words u.lexeme.toList

instance (t u : Token) : Decidable (t.Respells u) :=
  decidable_of_iff (t.kind = u.kind ∧ (t.lexeme = u.lexeme ∨
      t.kind = .keyword ∧ Text.words t.lexeme.toList = Text.words u.lexeme.toList))
    ⟨fun ⟨hKind, hLexeme⟩ => ⟨hKind, hLexeme⟩, fun h => ⟨h.kind, h.lexeme⟩⟩

theorem respells_placed {pieces pieces' : List Piece} (h : Piece.Respaced pieces pieces')
    (offset offset' : Nat) :
    List.Forall₂ Token.Respells (Piece.placed offset pieces) (Piece.placed offset' pieces') := by
  induction h generalizing offset offset' with
  | nil => exact .nil
  | last => exact .cons ⟨rfl, .inl rfl⟩ .nil
  | cons _ _ _ ih => exact .cons ⟨rfl, .inl rfl⟩ (ih _ _)

/-- A text that consists of blanks and of the pieces it is scanned to. -/
structure LaidOut (q : String) (lead : List Char) (pieces : List Piece) : Prop where
  text : q = String.ofList (lead ++ Piece.joined pieces)
  blankLead : ∀ c ∈ lead, Text.isBlank c = true
  blankGaps : ∀ p ∈ pieces, ∀ c ∈ p.gap, Text.isBlank c = true
  tokens : tokenize q =
    .ok (Piece.placed (Text.byteLength lead) pieces ++ [Token.endAt q.utf8ByteSize])

theorem laidOut_iff {q : String} {lead : List Char} {pieces : List Piece} :
    LaidOut q lead pieces ↔ q = String.ofList (lead ++ Piece.joined pieces) ∧
      (∀ c ∈ lead, Text.isBlank c = true) ∧ Piece.Stand pieces := by
  constructor
  · intro h
    obtain ⟨tokens, hScanned, hTokens⟩ := tokenize_iff.mp h.tokens
    obtain rfl := List.append_cancel_right hTokens
    rw [h.text, String.toList_ofList] at hScanned
    exact ⟨h.text, h.blankLead, Piece.stand_of_scanned h.blankLead h.blankGaps hScanned⟩
  · rintro ⟨hText, hLead, hStand⟩
    refine ⟨hText, hLead, hStand.blank, tokenize_iff.mpr ⟨_, ?_, rfl⟩⟩
    rw [hText, String.toList_ofList]
    refine Scanned.blanks hLead ?_
    rw [Nat.zero_add]
    exact hStand.scanned _

theorem exists_laidOut {q : String} {ts : List Token} (h : tokenize q = .ok ts) :
    ∃ lead pieces, LaidOut q lead pieces := by
  obtain ⟨tokens, hScanned, -⟩ := tokenize_iff.mp h
  obtain ⟨lead, pieces, hText, hLead, hStand⟩ := Piece.exists_stand hScanned
  exact ⟨lead, pieces, laidOut_iff.mpr ⟨by rw [← hText, String.ofList_toList], hLead, hStand⟩⟩

theorem LaidOut.respaced {q : String} {lead lead' : List Char} {pieces pieces' : List Piece}
    (h : LaidOut q lead pieces) (hLead : ∀ c ∈ lead', Text.isBlank c = true)
    (hRespaced : Piece.Respaced pieces pieces') :
    LaidOut (String.ofList (lead' ++ Piece.joined pieces')) lead' pieces' := by
  obtain ⟨-, -, hStand⟩ := laidOut_iff.mp h
  exact laidOut_iff.mpr ⟨rfl, hLead, hStand.respaced hRespaced⟩

end SqlStore
