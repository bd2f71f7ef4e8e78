import SqlStore.Proofs.Text.Slices
import SqlStore.Proofs.Token.Scanned

/-!
# Scanning loses nothing

The tokens of a text stand in it one after the other, each at its offset, and only blank characters
are between them. Everything here follows from the layout that a scan finds, by induction on it.
-/
namespace SqlStore
set_option autoImplicit false

/-- The position after the last byte of a token. -/
def Token.finish (token : Token) : Nat :=
  token.offset + token.lexeme.utf8ByteSize

/-- The byte at a position belongs to a blank character of the text, where `offset` is the position
of its first byte. -/
def Text.BlankAt (offset : Nat) (cs : List Char) (i : Nat) : Prop :=
  ∃ front c back, cs = front ++ c :: back ∧ isBlank c = true ∧
    offset + byteLength front ≤ i ∧ i < offset + byteLength front + c.utf8Size

theorem Text.BlankAt.append {offset i : Nat} {cs ds : List Char}
    (h : BlankAt (offset + byteLength cs) ds i) : BlankAt offset (cs ++ ds) i := by
  obtain ⟨front, c, back, rfl, hBlank, hLow, hHigh⟩ := h
  refine ⟨cs ++ front, c, back, (List.append_assoc ..).symm, hBlank, ?_, ?_⟩ <;>
    rw [byteLength_append] <;> omega

/-- Gaps of blank characters and lexemes in turn make up the text; the last gap ends it. -/
inductive Interleaved : List Token → List Char → Prop where
  | gap {gap : List Char} (blank : ∀ c ∈ gap, Text.isBlank c = true) : Interleaved [] gap
  | token {t : Token} {tokens : List Token} {gap cs : List Char}
      (blank : ∀ c ∈ gap, Text.isBlank c = true) (rest : Interleaved tokens cs) :
      Interleaved (t :: tokens) (gap ++ t.lexeme.toList ++ cs)

theorem Interleaved.cons {tokens : List Token} {c : Char} {cs : List Char}
    (hc : Text.isBlank c = true) (h : Interleaved tokens cs) : Interleaved tokens (c :: cs) := by
  have hBlank : ∀ {gap : List Char}, (∀ d ∈ gap, Text.isBlank d = true) →
      ∀ d ∈ c :: gap, Text.isBlank d = true :=
    fun hGap => List.forall_mem_cons.mpr ⟨hc, hGap⟩
  cases h with
  | gap blank => exact .gap (hBlank blank)
  | token blank rest => exact .token (hBlank blank) rest

namespace Layout

variable {offset : Nat} {cs : List Char} {tokens : List Token}

/-- Each token cuts the text in three, and its offset is the length of the first part. -/
theorem exists_split (h : Layout offset cs tokens) {t : Token} (ht : t ∈ tokens) :
    ∃ front back, cs = front ++ t.lexeme.toList ++ back ∧ t.offset = offset + Text.byteLength front ∧
      t.lexeme.toList ≠ [] := by
  induction h with
  | done => cases ht
  | blank isBlank rest ih =>
    obtain ⟨front, back, rfl, hOffset, hNonempty⟩ := ih ht
    refine ⟨_ :: front, back, rfl, ?_, hNonempty⟩
    rw [hOffset, Text.byteLength_cons, Nat.add_assoc]
  | @token offset kind lexeme cs tokens nonempty rest ih =>
    rcases List.mem_cons.mp ht with rfl | ht
    · exact ⟨[], cs, by simp, rfl, by simpa using nonempty⟩
    · obtain ⟨front, back, rfl, hOffset, hNonempty⟩ := ih ht
      refine ⟨lexeme ++ front, back, by simp, ?_, hNonempty⟩
      rw [hOffset, Text.byteLength_append, Nat.add_assoc]

theorem offset_le (h : Layout offset cs tokens) {t : Token} (ht : t ∈ tokens) :
    offset ≤ t.offset := by
  obtain ⟨front, back, -, hOffset, -⟩ := h.exists_split ht
  omega

theorem ordered (h : Layout offset cs tokens) :
    tokens.Pairwise fun t u => t.finish ≤ u.offset := by
  induction h with
  | done => exact .nil
  | blank isBlank rest ih => exact ih
  | token nonempty rest ih =>
    refine List.pairwise_cons.mpr ⟨fun u hu => ?_, ih⟩
    rw [Token.finish, Text.utf8ByteSize_ofList]
    exact rest.offset_le hu

theorem covers (h : Layout offset cs tokens) {i : Nat} (hLow : offset ≤ i)
    (hHigh : i < offset + Text.byteLength cs) :
    (∃ t ∈ tokens, t.offset ≤ i ∧ i < t.finish) ∨ Text.BlankAt offset cs i := by
  induction h with
  | done =>
    rw [Text.byteLength_nil] at hHigh
    omega
  | @blank offset c cs tokens isBlank rest ih =>
    rw [Text.byteLength_cons] at hHigh
    rcases Nat.lt_or_ge i (offset + c.utf8Size) with hHere | hLater
    · exact .inr ⟨[], c, cs, rfl, isBlank, hLow, hHere⟩
    · refine (ih hLater (by omega)).imp_right fun hBlank => ?_
      exact @Text.BlankAt.append offset i [c] cs (by simpa using hBlank)
  | @token offset kind lexeme cs tokens nonempty rest ih =>
    rw [Text.byteLength_append] at hHigh
    rcases Nat.lt_or_ge i (offset + Text.byteLength lexeme) with hHere | hLater
    · refine .inl ⟨_, List.mem_cons_self, hLow, ?_⟩
      rwa [Token.finish, Text.utf8ByteSize_ofList]
    · rcases ih hLater (by omega) with ⟨t, ht, hCovers⟩ | hBlank
      · exact .inl ⟨t, List.mem_cons_of_mem _ ht, hCovers⟩
      · exact .inr hBlank.append

theorem interleaved (h : Layout offset cs tokens) : Interleaved tokens cs := by
  induction h with
  | done => exact .gap (by simp)
  | blank isBlank rest ih => exact ih.cons isBlank
  | @token offset kind lexeme cs tokens nonempty rest ih =>
    have hToken : Interleaved _ ([] ++ (String.ofList lexeme).toList ++ cs) :=
      .token (t := ⟨kind, String.ofList lexeme, offset⟩) (by simp) ih
    simpa using hToken

end Layout

/-- The tokens before the end mark account for the whole text: each is a piece of it, no two
overlap, and what they leave is blank. -/
structure AccountsFor (tokens : List Token) (s : String) : Prop where
  kinds : ∀ t ∈ tokens, t.kind ≠ .endOfInput
  nonempty : ∀ t ∈ tokens, t.lexeme ≠ ""
  lexemes : ∀ t ∈ tokens, s.toUTF8.extract t.offset t.finish = t.lexeme.toUTF8
  ordered : tokens.Pairwise fun t u => t.finish ≤ u.offset
  gaps : ∀ i < s.utf8ByteSize, (∀ t ∈ tokens, i < t.offset ∨ t.finish ≤ i) →
    Text.BlankAt 0 s.toList i
  interleaved : Interleaved tokens s.toList

theorem Layout.accountsFor {s : String} {tokens : List Token} (h : Layout 0 s.toList tokens)
    (hKinds : ∀ t ∈ tokens, t.kind ≠ .endOfInput) : AccountsFor tokens s where
  kinds := hKinds
  nonempty t ht := by
    obtain ⟨front, back, -, -, hNonempty⟩ := h.exists_split ht
    intro hEmpty
    exact hNonempty (by rw [hEmpty]; rfl)
  lexemes t ht := by
    obtain ⟨front, back, hSplit, hOffset, -⟩ := h.exists_split ht
    have hExtract := extract_of_toList_eq hSplit
    rw [← Text.utf8ByteSize_eq, String.ofList_toList] at hExtract
    rw [String.toUTF8_eq_toByteArray, String.toUTF8_eq_toByteArray, Token.finish, hOffset,
      Nat.zero_add, hExtract]
  ordered := h.ordered
  gaps i hi hGap := by
    rw [Text.utf8ByteSize_eq] at hi
    rcases h.covers (Nat.zero_le i) (by omega) with ⟨t, ht, hLow, hHigh⟩ | hBlank
    · have := hGap t ht
      omega
    · exact hBlank
  interleaved := h.interleaved

theorem tokenize_accountsFor {s : String} {ts : List Token} (h : tokenize s = .ok ts) :
    ∃ tokens, ts = tokens ++ [Token.endAt s.utf8ByteSize] ∧ AccountsFor tokens s := by
  obtain ⟨tokens, hScanned, rfl⟩ := tokenize_iff.mp h
  exact ⟨tokens, rfl, hScanned.layout.accountsFor fun t ht => hScanned.kind_ne_endOfInput ht⟩

theorem tokenize_accountsFor_word_and_string :
    ∃ tokens, [⟨.identifier, "a", 0⟩, ⟨.stringLiteral, "'é'", 2⟩, Token.endAt 6] =
      tokens ++ [Token.endAt "a 'é'".utf8ByteSize] ∧ AccountsFor tokens "a 'é'" :=
  tokenize_accountsFor (by decide +kernel)

end SqlStore
