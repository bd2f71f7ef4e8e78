import SqlStore.Proofs.Parser.Extension
import SqlStore.Proofs.Parser.Lookahead

/-!
# The first token that does not fit

An unexpected token is the first with which the tokens begin no sentence of the grammar. That those
before it begin one is a matter of the readers. For the token itself, imagine that the tokens up to
it were continued to a sentence: a parser on that sentence would run the same, but no token of a
sentence is unexpected.
-/
namespace SqlStore.Parser
open Grammar
set_option autoImplicit false

variable {limit : Nat}

/-- No token of a sentence is unexpected, so the tokens up to an unexpected one begin no sentence. -/
theorem not_viable_of_unexpected {parser after : Parser} {front more : List Token} {t : Token}
    {e : ParseError} (hReady : Ready limit parser)
    (hAhead : parser.rest ++ [parser.stop] = front ++ t :: more)
    (hRun : parser.run statement = (.error e, after)) (hFault : e.fault.isUnexpected = true)
    (hIndex : e.index = parser.position + front.length) :
    ¬ Viable (Written StatementForm) (front ++ [t]) := by
  rintro ⟨us, hSentence⟩
  -- A parser that has the sentence ahead of it sees the same tokens up to the unexpected one.
  let other : Parser := ⟨parser.position, front ++ [t] ++ us, Token.endAt 0, []⟩
  have hOther : Ready other.rest.length other := ⟨rfl, Nat.le_refl _⟩
  have hAbreast : Abreast e.index parser other := by
    refine ⟨rfl, fun i hi => ?_⟩
    have hInside : i < (front ++ [t]).length := by
      rw [List.length_append, List.length_singleton]
      omega
    have hOther : other.rest ++ [other.stop] = front ++ [t] ++ (us ++ [other.stop]) :=
      List.append_assoc _ _ _
    rw [hAhead, hOther, List.append_cons front t more, List.getElem?_append_left hInside,
      List.getElem?_append_left hInside]
  have hLocal : Local limit other.rest.length statement statement := local_statement
  obtain ⟨ts, hConfined⟩ := hLocal parser hReady
  have hReach : reach (parser.run statement) = e.index := by
    rw [hRun, reach, if_pos hFault]
  have hSame := (hConfined.same hAbreast hOther hReach.le).1
  rw [hRun] at hSame
  have hAdmitted := admits_statement other hOther (List.append_nil _).symm hSentence
    (by simp [EndsStatement, hOther.stop])
  generalize other.run statement = result at hSame hAdmitted
  cases hAdmitted with
  | ok _ => cases hSame
  | refused fault =>
    cases hSame
    rw [hFault] at fault
    cases fault

/-- The token of a fault and those before it: they begin no sentence, those before it alone do. -/
structure FirstUnfit (tokens : List Token) (cursor index : Nat) (found : Token) : Prop where
  fromCursor : cursor ≤ index
  found : tokens[index]? = some found
  viable : Viable (Written StatementForm) ((tokens.take index).drop cursor)
  notViable : ¬ Viable (Written StatementForm) ((tokens.take (index + 1)).drop cursor)

theorem eq_of_cause {front more : List Token} {expected : Expectation} {found t : Token}
    (h : Cause front (.unexpectedToken expected found) t more) : found = t := by
  cases h with
  | unexpectedToken => rfl
  | type _ _ _ cause =>
    cases cause
    rfl

theorem firstUnfit_of_unexpected (tokens : List Token) {cursor index final : Nat}
    {expected : Expectation} {found : Token} (hCursor : cursor < (withEnd tokens).length)
    (h : statementAt tokens cursor = (.error ⟨.unexpectedToken expected found, index⟩, final)) :
    FirstUnfit (withEnd tokens) cursor index found := by
  have hReady := ready_standing tokens cursor
  obtain ⟨back, hDrop⟩ := drop_withEnd hCursor
  have hOutcome : ((standing tokens cursor).run statement).1 =
      .error ⟨.unexpectedToken expected found, index⟩ := congrArg Prod.fst h
  have hRun : (standing tokens cursor).run statement =
      (.error ⟨.unexpectedToken expected found, index⟩, ((standing tokens cursor).run statement).2) :=
    Prod.ext hOutcome rfl
  have hViable := extends_statement _ hReady
  have hCause := blames_statement _ hReady
  rw [hRun] at hViable hCause
  cases hViable with
  | @error _ _ _ front more t _ hAhead hIndex _ charged =>
  cases hCause with
  | @error _ _ _ front' more' t' _ hAhead' hIndex' _ cause =>
  have hLengths : front.length = front'.length := Nat.add_left_cancel (hIndex.symm.trans hIndex')
  obtain ⟨rfl, hToken⟩ := List.append_inj (hAhead.symm.trans hAhead') hLengths
  obtain ⟨rfl, rfl⟩ := List.cons.inj hToken
  obtain rfl := eq_of_cause cause
  have hTokens : (withEnd tokens).drop cursor = front ++ found :: (more ++ back) := by
    rw [hDrop, List.append_cons, hAhead, List.append_assoc, List.cons_append]
  have hPosition : index = cursor + front.length := hIndex
  constructor
  · omega
  · rw [hPosition, ← List.getElem?_drop, hTokens, List.getElem?_append_right (Nat.le_refl _),
      Nat.sub_self, List.getElem?_cons_zero]
  · rw [List.drop_take, hTokens, hPosition, Nat.add_sub_cancel_left, List.take_left]
    exact charged rfl
  · have hTake : index + 1 - cursor = (front ++ [found]).length := by
      rw [List.length_append, List.length_singleton]
      omega
    rw [List.drop_take, hTokens, hTake, List.append_cons front found (more ++ back), List.take_left]
    exact not_viable_of_unexpected hReady hAhead hRun rfl hIndex

/-- A condition that breaks off inside two parentheses. -/
theorem firstUnfit_of_unexpected_operand :
    let word := fun (kind : TokenKind) (lexeme : String) => (⟨kind, lexeme, 0⟩ : Token)
    let tokens := [word .terminator ";", word .keyword "CREATE", word .keyword "TABLE",
      word .identifier "t", word .parenOpen "(", word .identifier "a", word .keyword "INT",
      word .keyword "CHECK", word .parenOpen "(", word .parenOpen "(", word .identifier "a",
      word .comparator "<", word .numberLiteral "1", word .connective "OR", word .parenClose ")"]
    1 < (withEnd tokens).length ∧
      statementAt tokens 1 =
        (.error ⟨.unexpectedToken .operand (word .parenClose ")"), 14⟩, 14) ∧
      FirstUnfit (withEnd tokens) 1 14 (word .parenClose ")") := by
  intro word tokens
  have hCursor : 1 < (withEnd tokens).length := by decide
  have hRun : statementAt tokens 1 =
      (.error ⟨.unexpectedToken .operand (word .parenClose ")"), 14⟩, 14) := by decide +kernel
  exact ⟨hCursor, hRun, firstUnfit_of_unexpected tokens hCursor hRun⟩

end SqlStore.Parser
