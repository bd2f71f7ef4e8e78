import SqlStore.Proofs.Parser.Composition
import SqlStore.Proofs.Parser.Trailing

/-!
# Tokens that are alike

Lists of tokens that differ in offsets and in the spelling of keywords only are read alike: as the
same statements, or with the same error, which names two tokens that are alike if it names a token.
-/
namespace SqlStore
set_option autoImplicit false

/-- The same fault. A token that was found may differ in its offset, and as a keyword in its
spelling. -/
inductive ParseFault.Alike : ParseFault → ParseFault → Prop
  | unexpectedToken (expected : Expectation) {t u : Token} (found : t.Alike u) :
      Alike (.unexpectedToken expected t) (.unexpectedToken expected u)
  | same (fault : ParseFault) : Alike fault fault

structure ParseError.Alike (d e : ParseError) : Prop where
  index : d.index = e.index
  fault : d.fault.Alike e.fault

/-- Both succeed with one value, or both fail with errors that are alike. -/
inductive SameOutcome {ε α : Type} (alike : ε → ε → Prop) : Except ε α → Except ε α → Prop
  | ok (a : α) : SameOutcome alike (.ok a) (.ok a)
  | error {d e : ε} (errors : alike d e) : SameOutcome alike (.error d) (.error e)

namespace Parser

variable {ts us : List Token}

theorem Pairing.Errors.alike {w : Pairing} {d e : ParseError} (h : w.Errors d e)
    (hShift : w.shift = 0) (hTail : w.tail = []) : d.Alike e := by
  obtain ⟨fault, i⟩ := d
  obtain ⟨fault', j⟩ := e
  obtain ⟨hIndex, hFault⟩ : j = i + w.shift ∧ w.Faults i fault fault' := ⟨h.index, h.fault⟩
  rw [hShift] at hIndex
  refine ⟨hIndex.symm, ?_⟩
  cases hFault with
  | unexpectedToken expected found =>
    rcases found with hTokens | ⟨hNot, -⟩
    · exact .unexpectedToken expected (w.alike hTokens)
    · exact absurd hTail hNot
  | same => exact .same fault

theorem isEnd_of_alike {t u : Token} (h : t.Alike u) : isEnd t = isEnd u := by
  rw [isEnd, isEnd, h.kind]

/-- Both lists end at the same place, be it at an end mark or without one. -/
theorem alike_ofTokens (h : List.Forall₂ Token.Alike ts us) :
    List.Forall₂ Token.Alike (ofTokens ts).rest (ofTokens us).rest ∧
      (ofTokens ts).stop.Alike (ofTokens us).stop := by
  have hFound : ∀ i j, List.Forall₂ Token.Alike (ts.takeWhile (!isEnd ·)) (us.takeWhile (!isEnd ·)) ∧
      ((ts.find? isEnd).getD (.endAt i)).Alike ((us.find? isEnd).getD (.endAt j)) := by
    intro i j
    induction h with
    | nil => exact ⟨.nil, rfl, .inl rfl⟩
    | @cons t u ts us hFirst hRest ih =>
      cases hEnd : isEnd t with
      | true =>
        have hEnd' : isEnd u = true := (isEnd_of_alike hFirst).symm.trans hEnd
        simp only [List.takeWhile_cons, List.find?_cons, hEnd, hEnd']
        exact ⟨.nil, hFirst⟩
      | false =>
        have hEnd' : isEnd u = false := (isEnd_of_alike hFirst).symm.trans hEnd
        simp only [List.takeWhile_cons, List.find?_cons, hEnd, hEnd']
        exact ⟨.cons hFirst ih.1, ih.2⟩
  exact hFound _ _

/-- Tokens that are alike, at the same positions. -/
def Pairing.respelled (ts us : List Token) : Pairing where
  related := Token.Alike
  alike := id
  shift := 0
  length := (ofTokens ts).rest.length
  tail := []
  terminated := terminated_nil
  stop := (ofTokens us).stop

theorem beside_respelled (h : List.Forall₂ Token.Alike ts us) :
    (Pairing.respelled ts us).Beside (ofTokens ts) (ofTokens us) :=
  ⟨rfl, Nat.zero_add _, ⟨_, (List.append_nil _).symm, (alike_ofTokens h).1⟩,
    (ready_ofTokens ts).stop, rfl, fun _ => (alike_ofTokens h).2⟩

theorem sameOutcome_statement (h : List.Forall₂ Token.Alike ts us) :
    SameOutcome ParseError.Alike (Statement.ofTokens ts) (Statement.ofTokens us) := by
  have hEnds := Pairing.ends_statement (beside_respelled h)
  rw [statement_ofTokens, statement_ofTokens]
  generalize (ofTokens ts).run statement = x, (ofTokens us).run statement = y at hEnds
  cases hEnds with
  | @ok s p q beside fits =>
    have hLength : q.rest.length = p.rest.length := beside.length_rest
    have hBoth : p.rest = [] ↔ q.rest = [] := by
      rw [← List.length_eq_zero_iff, ← List.length_eq_zero_iff, hLength]
    dsimp only
    by_cases hRest : p.rest = []
    · rw [if_pos hRest, if_pos (hBoth.mp hRest)]
      exact .ok s
    · rw [if_neg hRest, if_neg (mt hBoth.mpr hRest)]
      have hErrors : (Pairing.respelled ts us).Errors
          ⟨.unexpectedToken .endOfInput p.current, p.position⟩
          ⟨.unexpectedToken .endOfInput q.current, q.position⟩ :=
        ⟨beside.position, .unexpectedToken .endOfInput beside.found⟩
      exact .error (hErrors.alike rfl rfl)
  | past atEnd past => exact absurd rfl past.tail
  | error errors => exact .error (errors.alike rfl rfl)

theorem sameOutcome_script (h : List.Forall₂ Token.Alike ts us) :
    SameOutcome ParseError.Alike (Script.ofTokens ts) (Script.ofTokens us) := by
  have hContinues : (Pairing.respelled ts us).Continues [] ((ofTokens ts).run script)
      ((ofTokens us).run script) :=
    Pairing.continues_scriptFrom (beside_respelled h) (Nat.le_refl _) (Nat.le_refl _)
      (Nat.le_refl _)
  rw [Script.ofTokens, Script.ofTokens]
  generalize (ofTokens ts).run script = x, (ofTokens us).run script = y at hContinues
  cases hContinues with
  | @ok statements _ _ _ atTail fits =>
    rw [atTail.run_scriptFrom rfl]
    exact .ok statements
  | error errors => exact .error (errors.alike rfl rfl)

end Parser
end SqlStore
