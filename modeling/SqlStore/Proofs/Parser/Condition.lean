import SqlStore.Parser.Condition
import SqlStore.Proofs.Parser.Reads
import SqlStore.Statement.Grammar

/-!
# Reading conditions

The reader of conditions reads the grammar of conditions, up to a token that is no connective. Each
level of the grammar is a chain of items of the level below, and a parenthesis goes back to the first
level with fewer tokens ahead.
-/
namespace SqlStore.Parser
open Grammar
set_option autoImplicit false

variable {limit : Nat} {follow : Token → Prop}

theorem kind_of_literal? {t : Token} {v : Value} (h : t.literal? = some v) :
    t.kind ≠ .endOfInput := by
  intro hKind
  rw [Token.literal?, hKind] at h
  cases h

theorem run_literal (parser : Parser) :
    parser.run literal =
      match parser.current.literal? with
      | some v => (.ok v, parser.next)
      | none =>
        (.error ⟨.unexpectedToken .literal parser.current, parser.position⟩, parser) := by
  rw [literal, run_bind_ok parser (run_peek parser)]
  cases parser.current.literal? <;> rfl

theorem reads_literal : Reads limit literal LiteralForm follow := by
  have h : Reads limit literal (OneToken Token.literal?) follow := by
    apply reads_oneToken
    · intro t v h
      exact kind_of_literal? h
    · intro parser v h
      rw [run_literal, h]
    · intro parser h
      rw [run_literal, h]
      exact ⟨_, _, rfl⟩
  refine h.congr fun ts v => ?_
  constructor
  · rintro ⟨t, rfl, h⟩
    exact .intro h
  · rintro ⟨h⟩
    exact ⟨_, rfl, h⟩

def operandOf? (t : Token) : Option Operand :=
  if t.kind = .identifier then some (.column t.lexeme) else t.literal?.map .value

theorem oneToken_operandOf?_iff {ts : List Token} {operand : Operand} :
    OneToken operandOf? ts operand ↔ OperandForm ts operand := by
  constructor
  · rintro ⟨t, rfl, h⟩
    unfold operandOf? at h
    split at h
    · rename_i hKind
      cases h
      exact .column hKind
    · obtain ⟨v, hv, rfl⟩ := Option.map_eq_some_iff.mp h
      exact .value hv
  · rintro (⟨hKind⟩ | ⟨hv⟩)
    · exact ⟨_, rfl, if_pos hKind⟩
    · rename_i t v
      refine ⟨t, rfl, ?_⟩
      have hKind : t.kind ≠ .identifier := by
        intro hKind
        rw [Token.literal?, hKind] at hv
        cases hv
      rw [operandOf?, if_neg hKind, hv]
      rfl

theorem run_operand (parser : Parser) :
    parser.run operand =
      match operandOf? parser.current with
      | some operand => (.ok operand, parser.next)
      | none =>
        (.error ⟨.unexpectedToken .operand parser.current, parser.position⟩, parser) := by
  rw [operand, run_bind_ok parser (run_peek parser), operandOf?]
  split
  · rfl
  · cases parser.current.literal? <;> rfl

theorem reads_operand : Reads limit operand OperandForm follow := by
  have h : Reads limit operand (OneToken operandOf?) follow := by
    apply reads_oneToken
    · intro t operand h
      unfold operandOf? at h
      split at h
      · rename_i hKind
        simp [hKind]
      · obtain ⟨v, hv, -⟩ := Option.map_eq_some_iff.mp h
        exact kind_of_literal? hv
    · intro parser operand h
      rw [run_operand, h]
    · intro parser h
      rw [run_operand, h]
      exact ⟨_, _, rfl⟩
  exact h.congr fun _ _ => oneToken_operandOf?_iff

def comparatorOf? (t : Token) : Option Comparator :=
  if t.kind = .comparator then Comparator.ofText? t.lexeme else none

theorem reads_comparator : Reads limit comparator (OneToken comparatorOf?) follow := by
  apply reads_oneToken
  · intro t op h
    obtain ⟨hKind, -⟩ := Option.ite_none_right_eq_some.mp h
    simp [hKind]
  · intro parser op h
    obtain ⟨hKind, hSign⟩ := Option.ite_none_right_eq_some.mp h
    have hConsume := run_consume parser .comparator .comparator
    rw [if_pos hKind] at hConsume
    rw [comparator, run_bind_ok parser (run_index parser), run_bind_ok parser hConsume]
    simp [hSign]
  · intro parser h
    rw [comparator, run_bind_ok parser (run_index parser)]
    have hConsume := run_consume parser .comparator .comparator
    by_cases hKind : parser.current.kind = .comparator
    · rw [comparatorOf?, if_pos hKind] at h
      rw [if_pos hKind] at hConsume
      rw [run_bind_ok parser hConsume]
      simp only [h]
      exact ⟨_, _, rfl⟩
    · rw [if_neg hKind] at hConsume
      exact ⟨_, _, run_bind_error parser hConsume⟩

/-- A condition that is written as one comparison. -/
def ComparisonForm (ts : List Token) (condition : Condition) : Prop :=
  ∃ ls t rs left op right, ts = ls ++ t :: rs ∧ OperandForm ls left ∧ t.kind = .comparator ∧
    Comparator.ofText? t.lexeme = some op ∧ OperandForm rs right ∧
    condition = .comparison left op right

theorem reads_comparison : Reads limit comparison ComparisonForm follow := by
  have h : Reads limit comparison _ follow :=
    reads_operand.andThen fun left =>
      reads_comparator.andThen fun op => reads_operand.map (Condition.comparison left op)
  refine h.congr fun ts condition => ?_
  constructor
  · rintro ⟨ls, _, left, rfl, hLeft, _, rs, op, rfl, ⟨t, rfl, ht⟩, right, hRight, rfl⟩
    obtain ⟨hKind, hSign⟩ := Option.ite_none_right_eq_some.mp ht
    exact ⟨ls, t, rs, left, op, right, rfl, hLeft, hKind, hSign, hRight, rfl⟩
  · rintro ⟨ls, t, rs, left, op, right, rfl, hLeft, hKind, hSign, hRight, rfl⟩
    exact ⟨ls, t :: rs, left, rfl, hLeft, [t], rs, op, rfl,
      ⟨t, rfl, Option.ite_none_right_eq_some.mpr ⟨hKind, hSign⟩⟩, right, hRight, rfl⟩

/-! ### Chains -/

theorem looks_checkConnective (word : String) :
    Looks (checkConnective word) (·.isConnective word) where
  run _ := rfl
  atEnd t h := by
    simp only [Token.isConnective, Bool.and_eq_true, beq_iff_eq] at h
    simp [h.1]

/-- Items with a connective between them, read from the left. -/
def Chained (word : String) (join : Condition → Condition → Condition)
    (item : List Token → Condition → Prop) : List Token → Condition → Prop :=
  Seq item (Rounds fun left =>
    Led (·.isConnective word) fun _ ts condition =>
      ∃ right, item ts right ∧ condition = join left right)

section

variable {word : String} {join : Condition → Condition → Condition}
  {item whole : List Token → Condition → Prop}

theorem Chained.single {ts : List Token} {condition : Condition} (h : item ts condition) :
    Chained word join item ts condition :=
  ⟨ts, [], condition, (List.append_nil ts).symm, h, .nil⟩

theorem Chained.append {ts us : List Token} {t : Token} {left right : Condition}
    (h : Chained word join item ts left) (ht : t.isConnective word = true) (hItem : item us right) :
    Chained word join item (ts ++ t :: us) (join left right) := by
  obtain ⟨vs, ws, first, rfl, hFirst, hRounds⟩ := h
  rw [List.append_assoc]
  exact ⟨vs, _, first, rfl, hFirst, hRounds.snoc ⟨t, us, rfl, ht, right, hItem, rfl⟩⟩

theorem Chained.ofSteps (hSingle : ∀ {ts condition}, item ts condition → whole ts condition)
    (hAppend : ∀ {ts us t left right}, whole ts left → t.isConnective word = true →
      item us right → whole (ts ++ t :: us) (join left right))
    {ts : List Token} {condition : Condition} (h : Chained word join item ts condition) :
    whole ts condition := by
  obtain ⟨us, vs, first, rfl, hFirst, hRounds⟩ := h
  refine Rounds.fold whole ?_ (hSingle hFirst) hRounds
  rintro ts _ left condition hWhole ⟨t, us, rfl, ht, right, hItem, rfl⟩
  exact hAppend hWhole ht hItem

theorem reads_chain {reader : ParseM Condition} (h : Reads limit reader item follow)
    (hFollow : ∀ t, t.isConnective word = true → follow t) :
    Reads limit (chain word join reader) (Chained word join item)
      (fun t => follow t ∧ t.isConnective word = false) := by
  have hLoop := loopReads_stepIf (looks_checkConnective word)
    (fun left => h.map (join left)) hFollow
  exact hLoop.after (fun first => first) h

end

theorem chained_and_iff {ts : List Token} {condition : Condition} :
    Chained "AND" .and (ConditionForm .primary) ts condition ↔
      ConditionForm .conjunction ts condition := by
  constructor
  · exact Chained.ofSteps .primary .and
  · intro h
    generalize hLevel : Level.conjunction = level at h
    induction h with
    | primary form => exact .single form
    | and _ isAnd rightForm ih => exact (ih hLevel).append isAnd rightForm
    | _ => cases hLevel

theorem chained_or_iff {ts : List Token} {condition : Condition} :
    Chained "OR" .or (ConditionForm .conjunction) ts condition ↔
      ConditionForm .disjunction ts condition := by
  constructor
  · exact Chained.ofSteps .conjunction .or
  · intro h
    generalize hLevel : Level.disjunction = level at h
    induction h with
    | conjunction form => exact .single form
    | or _ isOr rightForm ih => exact (ih hLevel).append isOr rightForm
    | _ => cases hLevel

/-! ### Conditions -/

theorem primary_iff {ts : List Token} {condition : Condition} :
    Parenthesized (ConditionForm .disjunction) ts condition ∨ ComparisonForm ts condition ↔
      ConditionForm .primary ts condition := by
  constructor
  · rintro (⟨opening, us, closing, rfl, hOpen, hForm, hClose⟩ |
      ⟨ls, t, rs, left, op, right, rfl, hLeft, hKind, hSign, hRight, rfl⟩)
    · exact .parenthesized hOpen hForm hClose
    · exact .comparison hLeft hKind hSign hRight
  · intro h
    cases h with
    | comparison leftForm kind sign rightForm =>
      exact .inr ⟨_, _, _, _, _, _, rfl, leftForm, kind, sign, rightForm, rfl⟩
    | parenthesized isOpening form isClosing =>
      exact .inl ⟨_, _, _, rfl, isOpening, form, isClosing⟩

theorem operandForm_head {ts : List Token} {operand : Operand} (h : OperandForm ts operand) :
    ∃ t, ts = [t] ∧ t.kind ≠ .parenOpen := by
  cases h with
  | @column t kind => exact ⟨t, rfl, by simp [kind]⟩
  | @value t v literal =>
    refine ⟨t, rfl, fun hKind => ?_⟩
    rw [Token.literal?, hKind] at literal
    cases literal

theorem conditionForm_ne_nil {level : Level} {ts : List Token} {condition : Condition}
    (h : ConditionForm level ts condition) : ts ≠ [] := by
  induction h with
  | primary _ ih | conjunction _ ih => exact ih
  | _ => simp

/-- The token after a condition must not continue it. -/
def EndsCondition (t : Token) : Prop :=
  t.isConnective "AND" = false ∧ t.isConnective "OR" = false

theorem endsCondition_of_kind {t : Token} (h : t.kind ≠ .connective) : EndsCondition t := by
  simp [EndsCondition, Token.isConnective, h]

/-- A connective is one of two words, whatever the case of its letters. -/
theorem not_and_of_isConnective_or {t : Token} (h : t.isConnective "OR" = true) :
    t.isConnective "AND" = false := by
  simp only [Token.isConnective, Text.sameLetters, Bool.and_eq_true, beq_iff_eq] at h
  have hWords : ("OR".toList.map Char.toLower == "AND".toList.map Char.toLower) = false := by
    decide
  rw [Token.isConnective, Text.sameLetters, h.2, hWords, Bool.and_false]

theorem reads_primary {depth : Nat}
    (h : Reads depth (conditionWithin depth) (ConditionForm .disjunction) EndsCondition) :
    Reads (depth + 1)
      (do if ← check .parenOpen then parenthesized (conditionWithin depth) else comparison)
      (ConditionForm .primary) anyToken := by
  have hParenthesized : Reads (depth + 1) (parenthesized (conditionWithin depth))
      (Parenthesized (ConditionForm .disjunction)) anyToken :=
    reads_parenthesized h fun t h => endsCondition_of_kind (by simp [h])
  have hPrimary := reads_choice (looks_check (by decide : TokenKind.parenOpen ≠ .endOfInput))
    hParenthesized reads_comparison
    (by
      rintro ts condition t ⟨opening, us, closing, rfl, hOpen, -, -⟩ _
      simp [hOpen])
    (by
      rintro ts condition t ⟨ls, u, rs, left, op, right, rfl, hLeft, -⟩ _
      obtain ⟨v, rfl, hKind⟩ := operandForm_head hLeft
      simpa using hKind)
  exact hPrimary.congr fun _ _ => primary_iff

theorem reads_conjunction {primary : ParseM Condition}
    (h : Reads limit primary (ConditionForm .primary) anyToken) :
    Reads limit (chain "AND" .and primary) (ConditionForm .conjunction)
      (fun t => t.isConnective "AND" = false) :=
  ((reads_chain h fun _ _ => trivial).congr fun _ _ => chained_and_iff).weaken
    fun _ h => ⟨trivial, h⟩

theorem reads_conditionWithin (depth : Nat) :
    Reads depth (conditionWithin depth) (ConditionForm .disjunction) EndsCondition := by
  induction depth with
  | zero =>
    intro parser hReady
    refine .of_error fun ts us condition hRest hForm _ => ?_
    have hEmpty := List.length_eq_zero_iff.mp (Nat.le_zero.mp hReady.rest)
    rw [hEmpty] at hRest
    exact conditionForm_ne_nil hForm (List.nil_eq_append_iff.mp hRest).1
  | succ depth ih =>
    exact (reads_chain (reads_conjunction (reads_primary ih))
      fun t ht => not_and_of_isConnective_or ht).congr fun _ _ => chained_or_iff

theorem reads_condition :
    Reads limit condition (ConditionForm .disjunction) EndsCondition := by
  intro parser hReady
  rw [condition, run_bind_ok parser (run_get parser)]
  exact reads_conditionWithin _ parser ⟨hReady.stop, Nat.le_refl _⟩

end SqlStore.Parser
