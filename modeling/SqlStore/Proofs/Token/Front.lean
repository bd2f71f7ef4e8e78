import SqlStore.Proofs.Token.Scanned

/-!
# Other rests

The front of a text keeps its tokens if another rest comes behind it, as long as both rests begin
with a character that halts every lexeme, or are empty.
-/
namespace SqlStore
open Lexeme TokenKind
set_option autoImplicit false

/-! ### What halts every lexeme -/

/-- The text ends here or goes on with a character that no lexeme takes in behind its first one;
only a point may still make a fraction. -/
structure Halts (rest : List Char) : Prop where
  blank : StopsAt Text.isBlank rest
  word : StopsAt isWordChar rest
  operator : ∀ c ∈ rest.head?, c ∉ ['=', '>']

theorem halts_nil : Halts [] where
  blank := stopsAt_nil _
  word := stopsAt_nil _
  operator := by simp

variable {kind : TokenKind} {lexeme cs rest rest' : List Char}

theorem Lexeme.StopsAt.changed {p : Char → Bool} (h : StopsAt p (cs ++ rest))
    (hRest : StopsAt p rest') : StopsAt p (cs ++ rest') := by
  cases cs with
  | nil => exact hRest
  | cons c cs => exact h

/-- A rest that halts brings a fraction only as a whole. -/
theorem Lexeme.HasFraction.changed (h : HasFraction (cs ++ rest')) (hHalts : Halts rest')
    (hPoint : HasFraction rest' → HasFraction rest) : HasFraction (cs ++ rest) := by
  match cs with
  | [] => exact hPoint h
  | [c] =>
    obtain ⟨d, ds, hText, hDigit⟩ := h
    obtain ⟨-, rfl⟩ := List.cons.inj hText
    have hStop := stopsAt_cons.mp hHalts.word.isDigit
    rw [hDigit] at hStop
    cases hStop
  | c :: d :: cs =>
    obtain ⟨e, es, hText, hDigit⟩ := h
    cases hText
    exact ⟨d, _, rfl, hDigit⟩

/-- No operator is longer than another one by two characters. -/
theorem Lexeme.EndsComparator.of_first {op ds : List Char} {c : Char}
    (hOp : String.ofList op ∈ comparators) (h : EndsComparator op (c :: cs)) :
    EndsComparator op (c :: ds) := by
  intro other hOther hPrefix
  have hLengths : ∀ a ∈ comparators, ∀ b ∈ comparators, a.length ≤ b.length + 1 := by decide
  have hLength : other.toList.length ≤ (op ++ [c]).length := by
    rw [String.length_toList, List.length_append, List.length_singleton]
    have := hLengths other hOther _ hOp
    rwa [String.length_ofList] at this
  have hSplit : ∀ rest : List Char, op ++ c :: rest = (op ++ [c]) ++ rest := by simp
  rw [hSplit] at hPrefix
  refine h other hOther ?_
  rw [hSplit]
  exact (List.prefix_of_prefix_length_le hPrefix (List.prefix_append _ _) hLength).trans
    (List.prefix_append _ _)

theorem Halts.endsComparator (h : Halts rest) {op : List Char}
    (hOp : String.ofList op ∈ comparators) : EndsComparator op rest := by
  intro other hOther hPrefix
  have hSeconds : ∀ other ∈ comparators, other.toList.tail.all (· ∈ ['=', '>']) = true := by decide
  cases op with
  | nil => exact absurd hOp (by decide)
  | cons a op =>
    cases hText : other.toList with
    | nil => simp [← String.length_toList, hText]
    | cons b tail =>
      have hTail := hSeconds other hOther
      rw [hText, List.tail_cons, List.all_eq_true] at hTail
      rw [hText, List.cons_append, List.cons_prefix_cons] at hPrefix
      rw [← String.length_toList, hText]
      exact Nat.succ_le_succ <| length_le_of_run (fun c hc => decide_eq_false (h.operator c hc))
        hTail hPrefix.2

theorem TokenKind.StartsKeyword.changed {word : List Char} (hWord : IsIdentifier word)
    (hStop : StopsAt isWordChar (cs ++ rest')) (hHalts : Halts rest) (hHalts' : Halts rest')
    (h : StartsKeyword word (cs ++ rest')) : StartsKeyword word (cs ++ rest) := by
  obtain ⟨k, gap, tail, back, hText, words, blank, hEnd⟩ := (startsKeyword_iff hWord hStop).mp h
  have hTail := (isWord_of_words_pair words).2
  have hAll : ∀ c ∈ gap ++ tail, (Text.isBlank c || isWordChar c) = true := by
    intro c hc
    rcases List.mem_append.mp hc with hGap | hTailMem
    · simp [blank.2 c hGap]
    · simp [isWordChar_of_mem hTail hTailMem]
  obtain ⟨after, rfl⟩ := prefix_of_prefix_append hAll
    (fun c hc => by simp [hHalts'.blank c hc, hHalts'.word c hc]) ⟨back, hText.symm⟩
  rw [List.append_assoc] at hText
  rw [← List.append_cancel_left hText] at hEnd
  have hStop' : StopsAt isWordChar (gap ++ tail ++ after ++ rest) := hStop.changed hHalts.word
  rw [startsKeyword_iff hWord hStop']
  exact ⟨k, gap, tail, after ++ rest, List.append_assoc .., words, blank,
    hEnd.changed hHalts.word⟩

theorem TokenKind.Ends.changed (hClass : kind.Class lexeme) (h : kind.Ends lexeme (cs ++ rest))
    (hHalts : Halts rest') (hPoint : HasFraction rest' → HasFraction rest) :
    kind.Ends lexeme (cs ++ rest') := by
  cases kind with
  | keyword | identifier | booleanLiteral | nullLiteral | connective =>
    exact StopsAt.changed h hHalts.word
  | numberLiteral =>
    exact ⟨h.1.changed hHalts.word.isDigit,
      fun hWhole hFraction => h.2 hWhole (hFraction.changed hHalts hPoint)⟩
  | comparator =>
    cases cs with
    | nil => exact hHalts.endsComparator hClass
    | cons c cs => exact EndsComparator.of_first hClass h
  | _ => trivial

theorem TokenKind.Stands.changed (h : kind.Stands lexeme (cs ++ rest)) (hHalts : Halts rest)
    (hHalts' : Halts rest') (hPoint : HasFraction rest' → HasFraction rest) :
    kind.Stands lexeme (cs ++ rest') := by
  have hEnds := Ends.changed h.isClass h.ends hHalts' hPoint
  refine ⟨h.isClass, hEnds, fun hKind hStarts => h.alone hKind ?_⟩
  subst hKind
  exact hStarts.changed h.isClass hEnds hHalts hHalts'

theorem ScannedFront.changed {offset : Nat} {tokens : List Token}
    (h : ScannedFront rest offset cs tokens) (hHalts : Halts rest)
    (hHalts' : Halts rest') (hPoint : HasFraction rest' → HasFraction rest) :
    ScannedFront rest' offset cs tokens := by
  induction h with
  | done => exact .done
  | blank isBlank _ ih => exact .blank isBlank ih
  | token stands _ ih => exact .token (stands.changed hHalts hHalts' hPoint) ih

end SqlStore
