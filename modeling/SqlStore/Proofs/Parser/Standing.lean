import SqlStore.Proofs.Parser.Cursor

/-!
# Parsers at a position

A parser may be made to stand at any position of its list of tokens, whether or not a sequence of
calls leads there. It goes on to the next end mark from there. A parser that has been used stands at
its own position like this, but for the events that it has recorded.
-/
namespace SqlStore.Parser
set_option autoImplicit false

variable {tokens front back : List Token} {stop : Token} {cursor : Nat}

theorem ofTokens_append (hFront : ∀ t ∈ front, isEnd t = false) (hStop : isEnd stop = true) :
    ofTokens (front ++ stop :: back) = ⟨0, front, stop, []⟩ := by
  have hGo : ∀ t ∈ front, (!isEnd t) = true := fun t ht => by rw [hFront t ht]; rfl
  have hNone : front.find? isEnd = none := by
    rw [List.find?_eq_none]
    intro t ht
    simp [hFront t ht]
  rw [ofTokens, List.takeWhile_append_of_pos hGo, List.find?_append, hNone]
  simp [hStop]

def standing (tokens : List Token) (cursor : Nat) : Parser :=
  { ofTokens ((withEnd tokens).drop cursor) with position := cursor }

/-- What a call for a statement at a position gives, and the position where it leaves the parser. -/
def statementAt (tokens : List Token) (cursor : Nat) : Except ParseError Statement × Nat :=
  let outcome := (standing tokens cursor).run statement
  (outcome.1, outcome.2.position)

theorem ready_standing (tokens : List Token) (cursor : Nat) :
    Ready (standing tokens cursor).rest.length (standing tokens cursor) where
  stop := (ready_ofTokens ((withEnd tokens).drop cursor)).stop
  rest := Nat.le_refl _

theorem isEnd_stop_standing (tokens : List Token) (cursor : Nat) :
    isEnd (standing tokens cursor).stop = true := by
  rw [isEnd, (ready_standing tokens cursor).stop]
  rfl

theorem isEnd_of_mem_rest {t : Token} (h : t ∈ (ofTokens tokens).rest) : isEnd t = false := by
  simpa [ofTokens] using List.mem_takeWhile_imp h

theorem isEnd_getLast?_withEnd (tokens : List Token) :
    (withEnd tokens).getLast?.any isEnd = true := by
  unfold withEnd
  split
  · assumption
  · rw [List.getLast?_concat]
    rfl

theorem exists_withEnd_eq (tokens : List Token) : ∃ back, withEnd tokens = tokens ++ back := by
  unfold withEnd
  split
  · exact ⟨[], (List.append_nil tokens).symm⟩
  · exact ⟨_, rfl⟩

theorem drop_withEnd (h : cursor < (withEnd tokens).length) :
    ∃ back, (withEnd tokens).drop cursor =
      (standing tokens cursor).rest ++ (standing tokens cursor).stop :: back := by
  have hLast : ((withEnd tokens).drop cursor).getLast?.any isEnd = true := by
    rw [List.getLast?_drop, if_neg (Nat.not_le.mpr h)]
    exact isEnd_getLast?_withEnd tokens
  obtain ⟨back, hTokens⟩ := withEnd_eq ((withEnd tokens).drop cursor)
  refine ⟨back, ?_⟩
  rwa [withEnd, if_pos hLast] at hTokens

theorem standing_of_drop (hDrop : (withEnd tokens).drop cursor = front ++ stop :: back)
    (hFront : ∀ t ∈ front, isEnd t = false) (hStop : isEnd stop = true) :
    standing tokens cursor = ⟨cursor, front, stop, []⟩ := by
  rw [standing, hDrop, ofTokens_append hFront hStop]

/-- What stands behind an end mark makes no difference. -/
theorem standing_append_end (hCursor : cursor ≤ front.length) (hStop : isEnd stop = true) :
    standing (front ++ stop :: back) cursor =
      { ofTokens (front.drop cursor ++ [stop]) with position := cursor } := by
  obtain ⟨more, hMore⟩ := exists_withEnd_eq (front ++ stop :: back)
  obtain ⟨behind, hBehind⟩ := withEnd_eq (front.drop cursor ++ [stop])
  have hLast : (front.drop cursor ++ [stop]).getLast?.any isEnd = true := by
    rw [List.getLast?_concat]
    exact hStop
  rw [withEnd, if_pos hLast] at hBehind
  have hDrop : (withEnd (front ++ stop :: back)).drop cursor =
      (ofTokens (front.drop cursor ++ [stop])).rest ++
        (ofTokens (front.drop cursor ++ [stop])).stop :: (behind ++ (back ++ more)) := by
    rw [hMore, List.append_assoc, List.drop_append_of_le_length hCursor, List.cons_append,
      List.append_cons]
    exact (congrArg (· ++ (back ++ more)) hBehind).trans (List.append_assoc _ _ _)
  refine standing_of_drop hDrop (fun t => isEnd_of_mem_rest) ?_
  rw [isEnd, (ready_ofTokens _).stop]
  rfl

theorem standing_zero (tokens : List Token) : standing tokens 0 = ofTokens tokens := by
  obtain ⟨back, hTokens⟩ := withEnd_eq tokens
  have hStop : isEnd (ofTokens tokens).stop = true := by
    rw [isEnd, (ready_ofTokens tokens).stop]
    rfl
  exact standing_of_drop hTokens (fun t => isEnd_of_mem_rest) hStop

theorem standing_moved {parser : Parser} {ts : List Token}
    (hCursor : cursor < (withEnd tokens).length) (h : Passes (standing tokens cursor) ts parser) :
    standing tokens parser.position = { parser with events := [] } := by
  obtain ⟨back, hTokens⟩ := drop_withEnd hCursor
  have hPosition : parser.position = cursor + ts.length := h.position
  have hDrop : (withEnd tokens).drop parser.position = parser.rest ++ parser.stop :: back := by
    rw [hPosition, ← List.drop_drop, hTokens, h.rest, h.stop, List.append_assoc, List.drop_left]
  refine standing_of_drop hDrop (fun t ht => ?_) ?_
  · have hMem : t ∈ (standing tokens cursor).rest := by
      rw [h.rest]
      exact List.mem_append_right ts ht
    exact isEnd_of_mem_rest hMem
  · rw [h.stop]
    exact isEnd_stop_standing tokens cursor

theorem standing_of_passes {parser : Parser} {ts : List Token}
    (h : Passes (ofTokens tokens) ts parser) :
    standing tokens parser.position = { parser with events := [] } := by
  have hSome := findIdx_withEnd_lt tokens
  rw [← standing_zero] at h
  exact standing_moved (by omega) h

end SqlStore.Parser
