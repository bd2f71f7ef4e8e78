import Mathlib.Data.List.Chain
import SqlStore.Proofs.Token.Recognized

/-!
# Joined lexemes

Lexemes of any kinds with blank characters between them are scanned to just these lexemes, each at
its offset. Only the two words of a keyword must not stand side by side as lexemes of their own. A
scan never finds them so, hence the lexemes of a text may be set apart by other blanks and are found
again.
-/
namespace SqlStore
open Lexeme TokenKind
set_option autoImplicit false

/-! ### Neighbours -/

/-- A name and the lexeme after it that are the two words of a keyword. -/
def CompletesKeyword (name : List Char) (kind : TokenKind) (lexeme : List Char) : Prop :=
  name = "NOT".toList ∧ kind = .nullLiteral ∨
    name = "PRIMARY".toList ∧ kind = .identifier ∧ lexeme = "KEY".toList

instance (name : List Char) (kind : TokenKind) (lexeme : List Char) :
    Decidable (CompletesKeyword name kind lexeme) :=
  inferInstanceAs (Decidable (_ ∨ _))

theorem stands_null {rest : List Char} (h : StopsAt isWordChar rest) :
    nullLiteral.Stands "NULL".toList rest :=
  ⟨List.mem_singleton_self _, h, nofun⟩

theorem stands_key {rest : List Char} (h : StopsAt isWordChar rest) :
    identifier.Stands "KEY".toList rest := by
  have hClass : IsIdentifier "KEY".toList := by decide +kernel
  refine ⟨hClass, h, fun _ hStarts => ?_⟩
  obtain ⟨k, gap, tail, back, -, hWords, -⟩ := (startsKeyword_iff hClass h).mp hStarts
  have hPair := exists_words_pair_iff.mp ⟨k, hWords⟩
  simp [compoundKeywords] at hPair

theorem TokenKind.Stands.unique {k l : TokenKind} {lexeme rest lexeme' rest' : List Char}
    (h : k.Stands lexeme rest) (h' : l.Stands lexeme' rest')
    (hText : lexeme ++ rest = lexeme' ++ rest') : k = l ∧ lexeme = lexeme' := by
  have hMatch := (firstMatch?_append_iff isPriority_priority).mpr h
  rw [hText, (firstMatch?_append_iff isPriority_priority).mpr h'] at hMatch
  obtain ⟨rfl, hLength⟩ := Prod.mk.inj (Option.some_inj.mp hMatch)
  exact ⟨rfl, (List.append_inj hText hLength.symm).1⟩

theorem stopsAt_isBlank_of_class {kind : TokenKind} {lexeme rest : List Char}
    (h : kind.Class lexeme) : StopsAt Text.isBlank (lexeme ++ rest) := by
  obtain ⟨c, cs, rfl, hc⟩ := exists_start h
  exact stopsAt_cons.mpr hc

theorem startsKeyword_gap_iff {name gap lexeme rest : List Char} {kind : TokenKind}
    (hName : IsIdentifier name) (hGap : IsBlankRun gap) (h : kind.Stands lexeme rest) :
    StartsKeyword name (gap ++ (lexeme ++ rest)) ↔ CompletesKeyword name kind lexeme := by
  rw [startsKeyword_iff hName (stopsAt_of_isBlankRun hGap)]
  constructor
  · rintro ⟨k, gap', tail, back, hText, hWords, hGap', hStop⟩
    obtain ⟨-, hTail⟩ := isWord_of_words_pair hWords
    rw [List.append_assoc] at hText
    obtain ⟨rfl, hRest⟩ := run_append_inj hGap.2 (stopsAt_isBlank_of_class h.isClass) hGap'.2
      (stopsAt_isBlank_of_isWord hTail) hText
    have hPair := exists_words_pair_iff.mp ⟨k, hWords⟩
    simp only [compoundKeywords, List.mem_cons, Prod.mk.injEq, ← String.toList_inj,
      String.toList_ofList, List.not_mem_nil, or_false] at hPair
    rcases hPair with ⟨rfl, rfl⟩ | ⟨rfl, rfl⟩
    · exact .inl ⟨rfl, (h.unique (stands_null hStop) hRest).1⟩
    · exact .inr ⟨rfl, h.unique (stands_key hStop) hRest⟩
  · intro hPair
    have hWords : ∃ k : Keyword, k.words = [name, lexeme] := by
      rcases hPair with ⟨rfl, rfl⟩ | ⟨rfl, -, rfl⟩
      · rw [List.mem_singleton.mp h.isClass]
        exact ⟨.notNull, by decide +kernel⟩
      · exact ⟨.primaryKey, by decide +kernel⟩
    have hStop : StopsAt isWordChar rest := by
      rcases hPair with ⟨-, rfl⟩ | ⟨-, rfl, -⟩
      · exact h.ends
      · exact h.ends
    obtain ⟨k, hWords⟩ := hWords
    exact ⟨k, gap, lexeme, rest, (List.append_assoc ..).symm, hWords, hGap, hStop⟩

/-! ### Pieces -/

/-- A lexeme with the kind that it is meant to have, and the blanks after it. -/
structure Piece where
  kind : TokenKind
  lexeme : List Char
  gap : List Char

namespace Piece

def joined : List Piece → List Char
  | [] => []
  | p :: rest => p.lexeme ++ (p.gap ++ joined rest)

/-- The tokens of joined pieces, the first of which stands at the offset. -/
def placed (offset : Nat) : List Piece → List Token
  | [] => []
  | p :: rest =>
    ⟨p.kind, String.ofList p.lexeme, offset⟩ ::
      placed (offset + Text.byteLength p.lexeme + Text.byteLength p.gap) rest

def content (p : Piece) : TokenKind × String :=
  (p.kind, String.ofList p.lexeme)

/-- Nothing but blanks stands between two pieces, and at least one. -/
structure Spaced (pieces : List Piece) : Prop where
  blank : ∀ p ∈ pieces, ∀ c ∈ p.gap, Text.isBlank c = true
  nonempty : pieces.IsChain fun p _ => p.gap ≠ []

/-- Pieces of their classes, of which no two neighbours make up a keyword. -/
structure Separate (pieces : List Piece) : Prop where
  classes : ∀ p ∈ pieces, p.kind.Class p.lexeme
  apart : pieces.IsChain fun p q =>
    p.kind = .identifier → ¬ CompletesKeyword p.lexeme q.kind q.lexeme

theorem Spaced.tail {p : Piece} {rest : List Piece} (h : Spaced (p :: rest)) : Spaced rest where
  blank q hq := h.blank q (List.mem_cons_of_mem p hq)
  nonempty := h.nonempty.tail

theorem Separate.tail {p : Piece} {rest : List Piece} (h : Separate (p :: rest)) :
    Separate rest where
  classes q hq := h.classes q (List.mem_cons_of_mem p hq)
  apart := h.apart.tail

theorem breaks_of_isBlank {gap : List Char} (h : ∀ c ∈ gap, Text.isBlank c = true) :
    Breaks gap := by
  intro c hc
  rw [isBreak, h c (List.mem_of_mem_head? hc)]
  rfl

theorem stands_of_separate {p : Piece} {rest : List Piece} (hSpaced : Spaced (p :: rest))
    (h : Separate (p :: rest)) : p.kind.Stands p.lexeme (p.gap ++ joined rest) := by
  induction rest generalizing p with
  | nil =>
    have hGap := hSpaced.blank p List.mem_cons_self
    have hClass := h.classes p List.mem_cons_self
    have hBreaks : Breaks (p.gap ++ joined []) := by
      rw [joined, List.append_nil]
      exact breaks_of_isBlank hGap
    refine ⟨hClass, hBreaks.ends _ _, fun hKind hStarts => ?_⟩
    rw [hKind] at hClass
    obtain ⟨k, gap, tail, back, hText, hWords, -, -⟩ :=
      (startsKeyword_iff hClass hBreaks.stopsAt_word).mp hStarts
    -- The second word would have to be blank.
    obtain ⟨-, hTail⟩ := isWord_of_words_pair hWords
    obtain ⟨c, hc⟩ := List.exists_mem_of_ne_nil tail (isWord_ne_nil hTail)
    rw [joined, List.append_nil] at hText
    have hBlank := hGap c (by simp [hText, hc])
    rw [(isSolid_of_isWord hTail).2 c hc] at hBlank
    cases hBlank
  | cons q rest ih =>
    have hGap : IsBlankRun p.gap :=
      ⟨(List.isChain_cons_cons.mp hSpaced.nonempty).1, hSpaced.blank p List.mem_cons_self⟩
    have hClass := h.classes p List.mem_cons_self
    have hNext := ih hSpaced.tail h.tail
    have hBreaks : Breaks (p.gap ++ joined (q :: rest)) := by
      intro c hc
      rw [List.head?_append_of_ne_nil _ hGap.1] at hc
      exact breaks_of_isBlank hGap.2 c hc
    refine ⟨hClass, hBreaks.ends _ _, fun hKind => ?_⟩
    rw [hKind] at hClass
    rw [joined, startsKeyword_gap_iff hClass hGap hNext]
    exact (List.isChain_cons_cons.mp h.apart).1 hKind

end Piece

theorem Scanned.blanks {offset : Nat} {gap cs : List Char} {tokens : List Token}
    (hGap : ∀ c ∈ gap, Text.isBlank c = true)
    (h : Scanned (offset + Text.byteLength gap) cs tokens) : Scanned offset (gap ++ cs) tokens := by
  induction gap generalizing offset with
  | nil => exact h
  | cons c gap ih =>
    obtain ⟨hc, hGap⟩ := List.forall_mem_cons.mp hGap
    rw [Text.byteLength_cons, ← Nat.add_assoc] at h
    exact .blank hc (ih hGap h)

theorem Piece.scanned_joined {offset : Nat} {pieces : List Piece} (hSpaced : Spaced pieces)
    (h : Separate pieces) : Scanned offset (joined pieces) (placed offset pieces) := by
  induction pieces generalizing offset with
  | nil => exact .done
  | cons p rest ih =>
    have hRest := @ih (offset + Text.byteLength p.lexeme + Text.byteLength p.gap) hSpaced.tail h.tail
    exact .token (stands_of_separate hSpaced h)
      (Scanned.blanks (hSpaced.blank p List.mem_cons_self) hRest)

/-! ### Neighbours in a text -/

theorem Scanned.exists_next {offset : Nat} {cs : List Char} {t : Token} {tokens : List Token}
    (h : Scanned offset cs (t :: tokens)) :
    ∃ gap after next, cs = gap ++ (t.lexeme.toList ++ after) ∧
      (∀ c ∈ gap, Text.isBlank c = true) ∧ t.kind.Stands t.lexeme.toList after ∧
      Scanned next after tokens := by
  generalize hTokens : t :: tokens = all at h
  induction h with
  | done => cases hTokens
  | @blank _ c _ _ isBlank _ ih =>
    obtain ⟨gap, after, next, rfl, hGap, hStands, hNext⟩ := ih hTokens
    exact ⟨c :: gap, after, next, rfl, List.forall_mem_cons.mpr ⟨isBlank, hGap⟩, hStands, hNext⟩
  | @token _ kind lexeme cs _ stands rest _ =>
    cases hTokens
    exact ⟨[], cs, _, by simp, by simp, by simpa using stands, rest⟩

theorem Scanned.not_completesKeyword {offset : Nat} {cs : List Char} {t u : Token}
    {tokens : List Token} (h : Scanned offset cs (t :: u :: tokens)) (hKind : t.kind = .identifier) :
    ¬ CompletesKeyword t.lexeme.toList u.kind u.lexeme.toList := by
  intro hPair
  obtain ⟨_, after, _, -, -, hStands, hAfter⟩ := h.exists_next
  obtain ⟨gap, rest, _, rfl, hBlank, hNext, -⟩ := hAfter.exists_next
  have hName := hStands.isClass
  have hStop := hStands.ends
  rw [hKind] at hName hStop
  have hGap : gap ≠ [] := by
    rintro rfl
    have hWord : IsWord u.lexeme.toList := by
      rcases hPair with ⟨-, hNull⟩ | ⟨-, hKey, -⟩
      · have hClass := hNext.isClass
        rw [hNull] at hClass
        rw [List.mem_singleton.mp hClass]
        decide
      · have hClass := hNext.isClass
        rw [hKey] at hClass
        exact hClass.1
    generalize u.lexeme.toList = word at hWord hStop
    cases word with
    | nil => exact hWord
    | cons c word =>
      have hc := stopsAt_cons.mp hStop
      rw [isWordChar_of_isWordStart hWord.1] at hc
      cases hc
  exact hStands.alone hKind ((startsKeyword_gap_iff hName ⟨hGap, hBlank⟩ hNext).mpr hPair)

theorem Scanned.isChain {offset : Nat} {cs : List Char} {tokens : List Token}
    (h : Scanned offset cs tokens) : tokens.IsChain fun t u =>
      t.kind = .identifier → ¬ CompletesKeyword t.lexeme.toList u.kind u.lexeme.toList := by
  induction tokens generalizing offset cs with
  | nil => exact .nil
  | cons t tokens ih =>
    obtain ⟨_, after, _, -, -, -, hAfter⟩ := h.exists_next
    cases tokens with
    | nil => exact .singleton t
    | cons u tokens => exact .cons_cons (fun hKind => h.not_completesKeyword hKind) (ih hAfter)

/-! ### Joining and scanning -/

def Token.content (t : Token) : TokenKind × String :=
  (t.kind, t.lexeme)

namespace Piece

theorem map_content_placed (offset : Nat) (pieces : List Piece) :
    (placed offset pieces).map Token.content = pieces.map content := by
  induction pieces generalizing offset with
  | nil => rfl
  | cons p rest ih =>
    rw [placed, List.map_cons, List.map_cons, ih]
    rfl

theorem tokenize_of_separate {lead : List Char} {pieces : List Piece}
    (hLead : ∀ c ∈ lead, Text.isBlank c = true) (hSpaced : Spaced pieces) (h : Separate pieces) :
    tokenize (String.ofList (lead ++ joined pieces)) =
      .ok (placed (Text.byteLength lead) pieces ++
        [Token.endAt (Text.byteLength (lead ++ joined pieces))]) := by
  rw [tokenize_iff]
  refine ⟨_, ?_, by rw [Text.utf8ByteSize_ofList]⟩
  rw [String.toList_ofList]
  refine Scanned.blanks hLead ?_
  rw [Nat.zero_add]
  exact scanned_joined hSpaced h

/-- The tokens of a text are separate in any text. -/
theorem separate_of_scanned {offset : Nat} {cs : List Char} {tokens : List Token}
    {pieces : List Piece} (h : Scanned offset cs tokens)
    (hContent : pieces.map content = tokens.map Token.content) : Separate pieces where
  classes p hp := by
    have hMem : p.content ∈ tokens.map Token.content :=
      hContent ▸ List.mem_map_of_mem hp
    obtain ⟨t, ht, hEq⟩ := List.mem_map.mp hMem
    obtain ⟨hKind, hLexeme⟩ := Prod.mk.inj hEq
    have hClass := h.class_of_mem ht
    rwa [hKind, hLexeme, String.toList_ofList] at hClass
  apart := by
    have hChain : (pieces.map content).IsChain fun a b : TokenKind × String =>
        a.1 = .identifier → ¬ CompletesKeyword a.2.toList b.1 b.2.toList := by
      rw [hContent, List.isChain_map]
      exact h.isChain
    rw [List.isChain_map] at hChain
    simpa only [content, String.toList_ofList] using hChain

/-- Joined pieces are scanned to themselves, and the tokens of any text may be joined in this way. -/
theorem tokenize_joined :
    (∀ lead pieces, (∀ c ∈ lead, Text.isBlank c = true) → Spaced pieces → Separate pieces →
      tokenize (String.ofList (lead ++ joined pieces)) =
        .ok (placed (Text.byteLength lead) pieces ++
          [Token.endAt (Text.byteLength (lead ++ joined pieces))])) ∧
    ∀ s ts lead pieces, tokenize s = .ok ts → (∀ c ∈ lead, Text.isBlank c = true) →
      Spaced pieces → pieces.map content ++ [(.endOfInput, "")] = ts.map Token.content →
      ∃ us, tokenize (String.ofList (lead ++ joined pieces)) = .ok us ∧
        us.map Token.content = ts.map Token.content := by
  refine ⟨fun _ _ hLead hSpaced h => tokenize_of_separate hLead hSpaced h, ?_⟩
  intro s ts lead pieces hTokens hLead hSpaced hContent
  obtain ⟨tokens, hScanned, rfl⟩ := tokenize_iff.mp hTokens
  have hPieces : pieces.map content = tokens.map Token.content := by
    rw [List.map_append] at hContent
    exact List.append_cancel_right hContent
  refine ⟨_, tokenize_of_separate hLead hSpaced (separate_of_scanned hScanned hPieces), ?_⟩
  rw [List.map_append, List.map_append, map_content_placed, hPieces]
  rfl

theorem tokenize_joined_compound :
    tokenize (String.ofList " PRIMARY\u2003KEY\tNOT KEY".toList) =
        .ok [⟨.keyword, "PRIMARY\u2003KEY", 1⟩, ⟨.identifier, "NOT", 15⟩, ⟨.identifier, "KEY", 19⟩,
          Token.endAt 22] ∧
      ∃ us, tokenize (String.ofList "x  <\n'é' ".toList) = .ok us ∧
        us.map Token.content = [(.identifier, "x"), (.comparator, "<"), (.stringLiteral, "'é'"),
          (.endOfInput, "")] := by
  have hBlank : ∀ c ∈ [' ', '\t', '\n', '\u2003'], Text.isBlank c = true :=
    List.all_eq_true.mp (by decide)
  constructor
  · refine tokenize_joined.1 [' '] [⟨.keyword, "PRIMARY\u2003KEY".toList, ['\t']⟩,
      ⟨.identifier, "NOT".toList, [' ']⟩, ⟨.identifier, "KEY".toList, []⟩] ?_ ⟨?_, by decide⟩
      ⟨?_, by decide⟩
    · simp [hBlank]
    · simp [hBlank]
    · have hKey : IsKeyword "PRIMARY\u2003KEY".toList :=
        isKeyword_iff.mpr (.inr ⟨['\u2003'], ⟨by decide, by simp [hBlank]⟩, ("PRIMARY", "KEY"),
          by decide, by decide⟩)
      have hNot : IsIdentifier "NOT".toList := by decide +kernel
      exact List.forall_mem_cons.mpr ⟨hKey, List.forall_mem_cons.mpr ⟨hNot,
        List.forall_mem_singleton.mpr (stands_key (stopsAt_nil _)).isClass⟩⟩
  · refine tokenize_joined.2 "x<'é'" [⟨.identifier, "x", 0⟩, ⟨.comparator, "<", 1⟩,
      ⟨.stringLiteral, "'é'", 2⟩, Token.endAt 6] [] [⟨.identifier, ['x'], [' ', ' ']⟩,
      ⟨.comparator, ['<'], ['\n']⟩, ⟨.stringLiteral, "'é'".toList, [' ']⟩] (by decide +kernel) ?_
      ⟨?_, by decide⟩ (by decide)
    · simp
    · simp [hBlank]

end Piece
end SqlStore
