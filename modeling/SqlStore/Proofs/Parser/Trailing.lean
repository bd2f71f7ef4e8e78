import SqlStore.Proofs.Parser.Statement

/-!
# Trailing tokens

Tokens after a statement are refused with an error of their own, which asks for the end of the input.
No reader of a statement, or of a part of one, fails in that way, so the error says that a statement
has been read.
-/
namespace SqlStore
set_option autoImplicit false

/-- The error of tokens that are left over. -/
def ParseFault.isTrailing : ParseFault → Bool
  | .unexpectedToken .endOfInput _ => true
  | _ => false

namespace Parser

variable {α β : Type}

def NeverTrailing (reader : ParseM α) : Prop :=
  ∀ (parser after : Parser) (e : ParseError), parser.run reader = (.error e, after) →
    e.fault.isTrailing = false

/-! ### Combining readers -/

theorem neverTrailing_of_ok {reader : ParseM α}
    (h : ∀ parser : Parser, ∃ a after, parser.run reader = (.ok a, after)) :
    NeverTrailing reader := by
  intro parser after e hRun
  obtain ⟨a, after', hOk⟩ := h parser
  cases hOk.symm.trans hRun

theorem neverTrailing_pure (a : α) : NeverTrailing (pure a) :=
  neverTrailing_of_ok fun parser => ⟨a, parser, rfl⟩

theorem neverTrailing_fail {fault : ParseFault} (h : fault.isTrailing = false) (index : Nat) :
    NeverTrailing (fail fault index : ParseM α) := by
  intro parser after e hRun
  cases hRun
  exact h

theorem neverTrailing_unexpected {expected : Expectation} (h : expected ≠ .endOfInput) :
    NeverTrailing (unexpected expected : ParseM α) := by
  intro parser after e hRun
  cases hRun
  cases expected with
  | endOfInput => exact absurd rfl h
  | _ => rfl

theorem NeverTrailing.bind {first : ParseM α} {second : α → ParseM β} (h : NeverTrailing first)
    (hSecond : ∀ a, NeverTrailing (second a)) : NeverTrailing (first >>= second) := by
  intro parser after e hRun
  rw [run_bind] at hRun
  split at hRun
  · exact hSecond _ _ _ _ hRun
  · rename_i hFirst
    cases hRun
    exact h _ _ _ hFirst

theorem NeverTrailing.map {reader : ParseM α} (h : NeverTrailing reader) (f : α → β) :
    NeverTrailing (reader >>= fun a => pure (f a)) :=
  h.bind fun a => neverTrailing_pure (f a)

theorem NeverTrailing.afterGet {second : Parser → ParseM α} (h : ∀ p, NeverTrailing (second p)) :
    NeverTrailing (get >>= second) :=
  (neverTrailing_of_ok fun parser => ⟨parser, parser, rfl⟩).bind h

theorem NeverTrailing.afterIndex {second : Nat → ParseM α} (h : ∀ i, NeverTrailing (second i)) :
    NeverTrailing (index >>= second) :=
  (neverTrailing_of_ok fun parser => ⟨_, _, run_index parser⟩).bind h

theorem NeverTrailing.afterPeek {second : Token → ParseM α} (h : ∀ t, NeverTrailing (second t)) :
    NeverTrailing (peek >>= second) :=
  (neverTrailing_of_ok fun parser => ⟨_, _, run_peek parser⟩).bind h

theorem neverTrailing_advance : NeverTrailing advance :=
  neverTrailing_of_ok fun parser => ⟨_, _, run_advance parser⟩

theorem neverTrailing_record (event : ParseEvent) : NeverTrailing (record event) :=
  neverTrailing_of_ok fun parser => ⟨_, _, run_record parser event⟩

theorem neverTrailing_look {test : ParseM Bool} {p : Token → Bool} (h : Looks test p) :
    NeverTrailing test :=
  neverTrailing_of_ok fun parser => ⟨_, _, h.run parser⟩

theorem NeverTrailing.ite {test : ParseM Bool} {yes no : ParseM α} (h : NeverTrailing test)
    (hYes : NeverTrailing yes) (hNo : NeverTrailing no) :
    NeverTrailing (test >>= fun b => if b then yes else no) := by
  refine h.bind fun b => ?_
  cases b
  · exact hNo
  · exact hYes

theorem neverTrailing_stepIf {test : ParseM Bool} {p : Token → Bool} (h : Looks test p) :
    NeverTrailing (stepIf test) :=
  (neverTrailing_look h).ite (neverTrailing_advance.map fun _ => true) (neverTrailing_pure false)

theorem neverTrailing_accept {kind : TokenKind} (hKind : kind ≠ .endOfInput) :
    NeverTrailing (accept kind) :=
  neverTrailing_stepIf (looks_check hKind)

theorem neverTrailing_consume (kind : TokenKind) {expected : Expectation}
    (h : expected ≠ .endOfInput) : NeverTrailing (consume kind expected) := by
  refine .afterPeek fun t => ?_
  split
  · exact neverTrailing_advance.map fun _ => t
  · exact neverTrailing_unexpected h

theorem neverTrailing_consumeKeyword (keyword : Keyword) : NeverTrailing (consumeKeyword keyword) :=
  (neverTrailing_look (looks_checkKeyword keyword)).ite neverTrailing_advance
    (neverTrailing_unexpected (by simp))

theorem NeverTrailing.repeatWhile {more : ParseM Bool} {step : α → ParseM α}
    (h : NeverTrailing more) (hStep : ∀ a, NeverTrailing (step a)) (a : α) :
    NeverTrailing (Parser.repeatWhile more step a) := by
  refine .afterGet fun parser => ?_
  induction parser.rest.length generalizing a with
  | zero => exact neverTrailing_pure a
  | succ bound ih => exact h.ite ((hStep a).bind ih) (neverTrailing_pure a)

theorem neverTrailing_separated {step : α → ParseM α} (hStep : ∀ a, NeverTrailing (step a)) (a : α) :
    NeverTrailing (separated step a) :=
  (hStep a).bind ((neverTrailing_accept (by decide)).repeatWhile hStep)

theorem NeverTrailing.parenthesized {inner : ParseM α} (h : NeverTrailing inner) :
    NeverTrailing (Parser.parenthesized inner) :=
  (neverTrailing_consume _ (by decide)).bind fun _ => h.bind fun a =>
    (neverTrailing_consume _ (by decide)).map fun _ => a

/-! ### Conditions -/

theorem neverTrailing_literal : NeverTrailing literal := by
  refine .afterPeek fun t => ?_
  split
  · exact neverTrailing_advance.map fun _ => _
  · exact neverTrailing_unexpected (by decide)

theorem neverTrailing_operand : NeverTrailing operand := by
  refine .afterPeek fun t => ?_
  split
  · exact neverTrailing_advance.map fun _ => _
  · split
    · exact neverTrailing_advance.map fun _ => _
    · exact neverTrailing_unexpected (by decide)

theorem neverTrailing_comparator : NeverTrailing comparator := by
  refine .afterIndex fun i => (neverTrailing_consume _ (by decide)).bind fun t => ?_
  split
  · exact neverTrailing_pure _
  · exact neverTrailing_fail (by rfl) i

theorem neverTrailing_comparison : NeverTrailing comparison :=
  neverTrailing_operand.bind fun left => neverTrailing_comparator.bind fun op =>
    neverTrailing_operand.map (Condition.comparison left op)

theorem NeverTrailing.chain {item : ParseM Condition} (h : NeverTrailing item) (word : String)
    (join : Condition → Condition → Condition) : NeverTrailing (Parser.chain word join item) :=
  h.bind ((neverTrailing_stepIf (looks_checkConnective word)).repeatWhile fun left =>
    h.map (join left))

theorem neverTrailing_conditionWithin (depth : Nat) : NeverTrailing (conditionWithin depth) := by
  induction depth with
  | zero => exact neverTrailing_unexpected (by decide)
  | succ depth ih =>
    have hOpen : NeverTrailing (check .parenOpen) := neverTrailing_look (looks_check (by decide))
    exact ((hOpen.ite ih.parenthesized neverTrailing_comparison).chain "AND" .and).chain "OR" .or

theorem neverTrailing_condition : NeverTrailing condition :=
  .afterGet fun parser => neverTrailing_conditionWithin parser.rest.length

/-! ### Columns -/

theorem neverTrailing_size (type : DataType) : NeverTrailing (size type) := by
  refine .afterIndex fun i => (neverTrailing_consume _ (by decide)).bind fun t => ?_
  split
  · exact neverTrailing_pure _
  · exact neverTrailing_fail (by rfl) i

theorem neverTrailing_secondSize (type : DataType) : NeverTrailing (secondSize type) := by
  unfold secondSize
  split
  · exact neverTrailing_pure none
  · exact (neverTrailing_accept (by decide)).ite ((neverTrailing_size type).map some)
      (neverTrailing_pure none)

theorem neverTrailing_dataType : NeverTrailing dataType := by
  refine .afterIndex fun start => (neverTrailing_consume _ (by decide)).bind fun t => ?_
  split
  · exact neverTrailing_fail (by rfl) start
  · rename_i type _
    have hOpen : NeverTrailing (check .parenOpen) := neverTrailing_look (looks_check (by decide))
    refine hOpen.ite ?_ (neverTrailing_pure type)
    split
    · exact .afterIndex fun i => neverTrailing_fail (by rfl) i
    · exact ((neverTrailing_size type).bind fun first =>
        (neverTrailing_secondSize type).map (type.sized first)).parenthesized

theorem neverTrailing_constraint : NeverTrailing constraint := by
  refine .afterIndex fun i => .afterPeek fun t => neverTrailing_advance.bind fun _ => ?_
  split
  case h_1 | h_2 | h_3 => exact neverTrailing_pure _
  case h_4 => exact neverTrailing_literal.map Constraint.default
  case h_5 => exact neverTrailing_condition.parenthesized.map Constraint.check
  case h_6 => exact neverTrailing_fail (by rfl) i

theorem neverTrailing_column : NeverTrailing column :=
  (neverTrailing_consume _ (by decide)).bind fun _ => neverTrailing_dataType.bind fun _ =>
    ((neverTrailing_look (looks_check (by decide : TokenKind.keyword ≠ .endOfInput))).repeatWhile
      (fun read => neverTrailing_constraint.map (read ++ [·])) []).bind fun _ =>
    (neverTrailing_record _).map fun _ => _

/-! ### Statements -/

theorem neverTrailing_distinctColumn (columns : List Column) :
    NeverTrailing (distinctColumn columns) := by
  refine .afterIndex fun i => neverTrailing_column.bind fun column => ?_
  split
  · exact neverTrailing_fail (by rfl) i
  · exact neverTrailing_pure _

theorem neverTrailing_tableEntry (entries : List Column × List Condition) :
    NeverTrailing (tableEntry entries) :=
  (neverTrailing_stepIf (looks_checkKeyword .check)).ite
    (neverTrailing_condition.parenthesized.map _) ((neverTrailing_distinctColumn _).map _)

theorem neverTrailing_createTable : NeverTrailing createTable :=
  (neverTrailing_consumeKeyword _).bind fun _ => (neverTrailing_consumeKeyword _).bind fun _ =>
    (neverTrailing_consume _ (by decide)).bind fun _ =>
    (neverTrailing_column.bind fun first => (neverTrailing_accept (by decide)).repeatWhile
      neverTrailing_tableEntry ([first], [])).parenthesized.map _

theorem neverTrailing_distinctName (names : List String) : NeverTrailing (distinctName names) := by
  refine .afterIndex fun i => (neverTrailing_consume _ (by decide)).bind fun name => ?_
  split
  · exact neverTrailing_fail (by rfl) i
  · exact neverTrailing_pure _

theorem neverTrailing_rowOf (width : Nat) (rows : List Row) : NeverTrailing (rowOf width rows) := by
  have hRow : NeverTrailing row :=
    (neverTrailing_separated (fun values => neverTrailing_literal.map (values ++ [·]))
      []).parenthesized
  refine .afterIndex fun i => hRow.bind fun row => ?_
  split
  · exact neverTrailing_pure _
  · exact neverTrailing_fail (by rfl) i

theorem neverTrailing_insertInto : NeverTrailing insertInto :=
  (neverTrailing_consumeKeyword _).bind fun _ => (neverTrailing_consumeKeyword _).bind fun _ =>
    (neverTrailing_consume _ (by decide)).bind fun _ =>
    (neverTrailing_separated neverTrailing_distinctName []).parenthesized.bind fun columns =>
    (neverTrailing_consumeKeyword _).bind fun _ =>
    (neverTrailing_separated (neverTrailing_rowOf columns.length) []).map _

theorem neverTrailing_finish (keyword : Keyword) (first : Nat) (statement : Statement) :
    NeverTrailing (finish keyword first statement) :=
  (neverTrailing_accept (by decide)).bind fun _ => .afterIndex fun _ =>
    (neverTrailing_record _).map fun _ => statement

theorem neverTrailing_statement : NeverTrailing statement := by
  refine .afterIndex fun first => .afterPeek fun t => ?_
  split
  · split
    · exact neverTrailing_createTable.bind fun _ => neverTrailing_finish _ _ _
    · exact neverTrailing_insertInto.bind fun _ => neverTrailing_finish _ _ _
    · exact neverTrailing_fail (by rfl) first
    · exact neverTrailing_fail (by rfl) first
  · exact neverTrailing_unexpected (by decide)

/-! ### Whole lists of tokens -/

theorem statement_ofTokens (tokens : List Token) :
    Statement.ofTokens tokens = match (ofTokens tokens).run statement with
      | (.error e, _) => .error e
      | (.ok s, after) =>
        if after.rest = [] then .ok s
        else .error ⟨.unexpectedToken .endOfInput after.current, after.position⟩ := by
  rw [Statement.ofTokens, run_bind]
  rcases (ofTokens tokens).run statement with ⟨e | s, after⟩
  · rfl
  · dsimp only
    rw [run_bind, run_endOfInput]
    by_cases hRest : after.rest = []
    · rw [if_pos hRest, if_pos hRest]
      rfl
    · rw [if_neg hRest, if_neg hRest]

/-- Where tokens are left over, a statement has been read, and the first of them is to blame. -/
theorem trailing_iff {tokens : List Token} {found : Token} {i : Nat} :
    Statement.ofTokens tokens = .error ⟨.unexpectedToken .endOfInput found, i⟩ ↔
      ∃ s after, (ofTokens tokens).run statement = (.ok s, after) ∧ after.rest ≠ [] ∧
        after.current = found ∧ after.position = i := by
  rw [statement_ofTokens]
  rcases hRun : (ofTokens tokens).run statement with ⟨e | s, after⟩
  · constructor
    · rintro ⟨⟩
      exact absurd (neverTrailing_statement _ _ _ hRun) nofun
    · rintro ⟨s, after', hOk, -⟩
      cases hOk
  · dsimp only
    constructor
    · intro h
      split at h
      · cases h
      · rename_i hRest
        cases h
        exact ⟨s, after, rfl, hRest, rfl, rfl⟩
    · rintro ⟨s', after', hOk, hRest, rfl, rfl⟩
      cases hOk
      rw [if_neg hRest]

end Parser
end SqlStore
