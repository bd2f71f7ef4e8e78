import SqlStore.Proofs.Parser.Locality
import SqlStore.Proofs.Parser.Standing

/-!
# One token of lookahead

Every reader of the parser is local, so a statement is read from nothing but the tokens between the
positions where the run begins and ends, the token at the end included. Tokens that have been passed
before, and those behind the next end mark, have no say.
-/
namespace SqlStore.Parser
open Grammar
set_option autoImplicit false

variable {limit limit' last : Nat} {p q : Parser}

/-! ### Conditions -/

theorem local_literal : Local limit limit' literal literal := by
  refine local_takeToken Token.literal? .literal (fun _ _ => kind_of_literal?) fun parser => ?_
  rw [run_literal, Pairing.takeToken]
  cases parser.current.literal? <;> rfl

theorem local_operand : Local limit limit' operand operand := by
  refine local_takeToken operandOf? .operand ?_ fun parser => ?_
  · intro t operand h hKind
    rw [Pairing.operandOf?_eq_none _ (.inl hKind)] at h
    cases h
  · rw [run_operand, Pairing.takeToken]
    cases operandOf? parser.current <;> rfl

theorem local_comparator : Local limit limit' comparator comparator := by
  refine local_checkedToken (by decide) fun i t _ => ?_
  split
  · exact .inr (local_pure _)
  · exact .inl ⟨_, rfl, rfl⟩

theorem local_comparison : Local limit limit' comparison comparison :=
  local_operand.bind fun _ => local_comparator.bind fun _ => local_operand.map _

theorem local_chain (word : String) (join : Condition → Condition → Condition)
    {item item' : ParseM Condition} (h : Local limit limit' item item') :
    Local limit limit' (chain word join item) (chain word join item') :=
  h.bind fun first => (localLoop_stepIf (looks_checkConnective word)
    fun left => h.map (join left)).repeatWhile first

theorem localAt_conditionWithin_atEnd (hReady : Ready limit p)
    (hKind : p.current.kind = .endOfInput) (depth depth' : Nat) :
    LocalAt limit' (conditionWithin depth) (conditionWithin depth') p := by
  have hRun : ∀ (q : Parser) (depth : Nat), q.current = p.current →
      q.run (conditionWithin depth) = q.run (unexpected .operand) := by
    intro q depth hCurrent
    rw [← hCurrent] at hKind
    exact Pairing.run_conditionWithin_error (Pairing.operandOf?_eq_none _ (.inl hKind))
      (by simp [hKind]) depth
  exact (local_unexpected .operand p hReady).congr (hRun p depth rfl) fun q => hRun q depth'

theorem local_conditionWithin (depth depth' : Nat) :
    Local depth depth' (conditionWithin depth) (conditionWithin depth') := by
  induction depth generalizing depth' with
  | zero =>
    intro p hReady
    exact localAt_conditionWithin_atEnd hReady (current_of_ready_zero hReady) 0 depth'
  | succ depth ih =>
    have hMore : ∀ depth', Local (depth + 1) (depth' + 1) (conditionWithin (depth + 1))
        (conditionWithin (depth' + 1)) := by
      intro depth'
      have hOpening : Local (depth + 1) (depth' + 1) (check .parenOpen) (check .parenOpen) :=
        local_look (looks_check (by decide))
      have hPrimary := hOpening.ite (local_parenthesized (ih depth')) local_comparison
      exact local_chain "OR" .or (local_chain "AND" .and hPrimary)
    cases depth' with
    | zero =>
      intro p hReady
      by_cases hKind : p.current.kind = .endOfInput
      · exact localAt_conditionWithin_atEnd hReady hKind (depth + 1) 0
      · exact (hMore 0 p hReady).ofTokenAhead hKind
    | succ depth' => exact hMore depth'

theorem local_condition : Local limit limit' condition condition := by
  intro p hReady
  have hRun : ∀ q : Parser, q.run condition = q.run (conditionWithin q.rest.length) := by
    intro q
    rw [condition, run_bind_ok q (run_get q)]
  refine localAt_of_bounded conditionWithin hRun fun bound _ => ?_
  exact (local_conditionWithin p.rest.length bound p ⟨hReady.stop, Nat.le_refl _⟩).congr (hRun p)
    fun _ _ => rfl

theorem local_parenthesizedCondition :
    Local limit limit' (parenthesized condition) (parenthesized condition) :=
  (local_parenthesized local_condition).mono (Nat.le_succ limit) (Nat.le_succ limit')

/-! ### Columns -/

theorem local_size (type : DataType) : Local limit limit' (size type) (size type) := by
  refine local_checkedToken (by decide) fun i t _ => ?_
  split
  · exact .inr (local_pure _)
  · exact .inl ⟨_, rfl, rfl⟩

theorem local_secondSize (type : DataType) :
    Local limit limit' (secondSize type) (secondSize type) := by
  unfold secondSize
  split
  · exact local_pure none
  · exact (local_stepIf (looks_check (by decide))).ite ((local_size type).map some)
      (local_pure none)

theorem local_sizes (type : DataType) : Local limit limit' (sizes type) (sizes type) :=
  (local_parenthesized ((local_size type).bind fun _ =>
    (local_secondSize type).map _)).mono (Nat.le_succ limit) (Nat.le_succ limit')

theorem local_dataType : Local limit limit' dataType dataType := by
  refine local_checkedToken (by decide) fun i t _ => ?_
  split
  · exact .inl ⟨_, rfl, rfl⟩
  · rename_i type _
    refine .inr ((local_look (looks_check (by decide))).ite ?_ (local_pure type))
    split
    · exact local_index.bind fun i => local_fail rfl i
    · exact local_sizes type

theorem local_constraintBody (t : Token) (i : Nat) :
    (∃ fault, constraintBody t i = fail fault i) ∨
      Local limit limit' (constraintBody t i) (constraintBody t i) := by
  unfold constraintBody
  split
  case h_1 | h_2 | h_3 => exact .inr (local_pure _)
  case h_4 => exact .inr (local_literal.map _)
  case h_5 => exact .inr (local_parenthesizedCondition.map _)
  case h_6 => exact .inl ⟨_, rfl⟩

/-- A constraint takes its keyword without a look at it, which has been looked at before. -/
theorem localAt_constraint (hReady : Ready limit p) (hKind : p.current.kind = .keyword) :
    LocalAt limit' constraint constraint p := by
  have hAll : Local limit limit' (index >>= fun i => consume .keyword .constraint >>= fun t =>
      constraintBody t i) _ :=
    local_checkedToken (by decide) fun i t _ =>
      (local_constraintBody t i).imp_left fun ⟨fault, hFail⟩ => ⟨fault, hFail, hFail⟩
  exact (hAll p hReady).congr (run_constraint hKind) fun q hCurrent =>
    run_constraint (by rwa [hCurrent])

theorem localLoop_constraint :
    LocalLoop limit limit' (check .keyword) (fun read => return read ++ [← constraint])
      (fun read => return read ++ [← constraint]) where
  stops q hKind := by
    rw [run_check, hKind]
    rfl
  rounds read p hReady := by
    refine (local_look (looks_check (by decide)) p hReady).bind ?_
    rintro yes middle hRun
    rw [run_check] at hRun
    cases hRun
    cases hYes : p.current.kind == .keyword with
    | false => exact local_pure none p hReady
    | true =>
      have hConstraint : LocalAt limit' constraint constraint p :=
        localAt_constraint hReady (by simpa using hYes)
      exact (hConstraint.map hReady fun next => read ++ [next]).map hReady some
  takes read all p after hReady hRun := by
    rw [round, run_bind_ok p (run_check p .keyword)] at hRun
    cases hYes : p.current.kind == .keyword with
    | false =>
      rw [hYes] at hRun
      cases hRun
    | true =>
      rw [hYes] at hRun
      have hConstraint : Yields ConstraintForm anyToken p _ :=
        yields_constraint hReady (by simpa using hYes)
      obtain ⟨ts, hPasses, _, ⟨constraint, hForm, -⟩, -⟩ :=
        ((hConstraint.map fun next => read ++ [next]).map some).sound hRun
      obtain ⟨t, us, rfl, -⟩ := constraintForm_iff.mp hForm
      have hLength := hPasses.length_rest
      rw [List.length_cons] at hLength
      omega

theorem local_constraints : Local limit limit' constraints constraints :=
  localLoop_constraint.repeatWhile []

theorem local_column : Local limit limit' column column :=
  (local_consume _ (by decide)).bind fun _ => local_dataType.bind fun _ =>
    local_constraints.bind fun _ => (local_record _).map fun _ => _

/-! ### Statements -/

theorem local_distinctColumn (columns : List Column) :
    Local limit limit' (distinctColumn columns) (distinctColumn columns) := by
  refine local_index.bind fun i => local_column.bind fun column => ?_
  split
  · exact local_fail rfl i
  · exact local_pure _

theorem local_tableEntry (entries : List Column × List Condition) :
    Local limit limit' (tableEntry entries) (tableEntry entries) :=
  (local_stepIf (looks_checkKeyword .check)).ite (local_parenthesizedCondition.map _)
    ((local_distinctColumn _).map _)

theorem local_comma {α : Type} {step : α → ParseM α} (h : ∀ a, Local limit limit' (step a) (step a))
    (a : α) :
    Local limit limit' (repeatWhile (accept .comma) step a) (repeatWhile (accept .comma) step a) :=
  (localLoop_stepIf (looks_check (by decide)) h).repeatWhile a

theorem local_separated {α : Type} {step : α → ParseM α}
    (h : ∀ a, Local limit limit' (step a) (step a)) (a : α) :
    Local limit limit' (separated step a) (separated step a) :=
  (h a).bind (local_comma h)

theorem local_createTable : Local limit limit' createTable createTable := by
  have hEntries : Local limit limit' (column >>= fun first =>
      repeatWhile (accept .comma) tableEntry ([first], [])) _ :=
    local_column.bind fun _ => local_comma local_tableEntry _
  have hParenthesized := (local_parenthesized hEntries).mono (Nat.le_succ limit) (Nat.le_succ limit')
  exact (local_consumeKeyword _).bind fun _ => (local_consumeKeyword _).bind fun _ =>
    (local_consume _ (by decide)).bind fun _ => hParenthesized.map _

theorem local_distinctName (names : List String) :
    Local limit limit' (distinctName names) (distinctName names) := by
  refine local_index.bind fun i => (local_consume _ (by decide)).bind fun name => ?_
  split
  · exact local_fail rfl i
  · exact local_pure _

theorem local_row : Local limit limit' row row :=
  (local_parenthesized (local_separated (fun values => local_literal.map (values ++ [·])) [])).mono
    (Nat.le_succ limit) (Nat.le_succ limit')

theorem local_rowOf (width : Nat) (rows : List Row) :
    Local limit limit' (rowOf width rows) (rowOf width rows) := by
  refine local_index.bind fun i => local_row.bind fun row => ?_
  split
  · exact local_pure _
  · exact local_fail rfl i

theorem local_insertInto : Local limit limit' insertInto insertInto := by
  have hNames : Local limit limit' (parenthesized (separated distinctName [])) _ :=
    (local_parenthesized (local_separated local_distinctName [])).mono (Nat.le_succ limit)
      (Nat.le_succ limit')
  exact (local_consumeKeyword _).bind fun _ => (local_consumeKeyword _).bind fun _ =>
    (local_consume _ (by decide)).bind fun _ => hNames.bind fun columns =>
      (local_consumeKeyword _).bind fun _ => (local_separated (local_rowOf columns.length) []).map _

theorem local_finish (keyword : Keyword) (first : Nat) (s : Statement) :
    Local limit limit' (finish keyword first s) (finish keyword first s) :=
  (local_stepIf (looks_check (by decide))).bind fun _ => local_index.bind fun _ =>
    (local_record _).map fun _ => s

theorem local_statement : Local limit limit' statement statement := by
  refine local_index.bind fun first => local_peek.bind fun t => ?_
  split
  · split
    · exact local_createTable.bind fun _ => local_finish _ _ _
    · exact local_insertInto.bind fun _ => local_finish _ _ _
    · exact local_fail rfl first
    · exact local_fail rfl first
  · exact local_unexpected _

/-! ### Lists of tokens -/

variable {tokens tokens' : List Token} {cursor : Nat}

theorem getElem?_standing (h : cursor < (withEnd tokens).length) {i : Nat}
    (hi : i ≤ (standing tokens cursor).rest.length) :
    ((standing tokens cursor).rest ++ [(standing tokens cursor).stop])[i]? =
      (withEnd tokens)[cursor + i]? := by
  obtain ⟨back, hDrop⟩ := drop_withEnd h
  have hInside : i < ((standing tokens cursor).rest ++ [(standing tokens cursor).stop]).length := by
    rw [List.length_append, List.length_singleton]
    omega
  rw [← List.getElem?_drop, hDrop, List.append_cons _ _ back]
  exact (List.getElem?_append_left hInside).symm

/-- Where the lists agree, neither parser can meet an end mark before the other does. -/
theorem abreast_standing (h : cursor < (withEnd tokens).length)
    (h' : cursor < (withEnd tokens').length)
    (hEnd : last ≤ cursor + (standing tokens cursor).rest.length)
    (hAgree : ∀ i, cursor ≤ i → i ≤ last → (withEnd tokens')[i]? = (withEnd tokens)[i]?) :
    Abreast last (standing tokens cursor) (standing tokens' cursor) where
  position := rfl
  ahead i hi := by
    have hBefore : cursor + i ≤ last := hi
    have hReached : i ≤ (standing tokens' cursor).rest.length := by
      by_contra hPast
      have hStop := getElem?_standing h' (Nat.le_refl _)
      rw [hAgree _ (Nat.le_add_right _ _) (by omega), ← getElem?_standing h (by omega),
        List.getElem?_concat_length, List.getElem?_append_left (by omega)] at hStop
      have hGo := isEnd_of_mem_rest (List.mem_of_getElem? hStop.symm)
      rw [isEnd_stop_standing] at hGo
      cases hGo
    rw [getElem?_standing h' hReached, getElem?_standing h (by omega),
      hAgree _ (Nat.le_add_right _ _) hBefore]

/-- Beside each other as far as the first run goes, parsers come to the same end. -/
theorem statement_of_abreast (hReady : Ready limit p) (hReady' : Ready limit' q)
    (h : Abreast last p q) (hLast : (p.run statement).2.position ≤ last) :
    (q.run statement).1 = (p.run statement).1 ∧
      (q.run statement).2.position = (p.run statement).2.position := by
  have hLocal : Local limit limit' statement statement := local_statement
  obtain ⟨ts, hConfined⟩ := hLocal p hReady
  obtain ⟨hSame, hPasses⟩ := hConfined.same h hReady' (hConfined.toEnd.trans hLast)
  refine ⟨hSame, ?_⟩
  rw [hPasses.position, hConfined.passes.position, h.position]

/-- What a call for a statement depends on, if the parser stands at a position of the tokens. -/
structure LooksAhead (tokens : List Token) (cursor : Nat) : Prop where
  inBounds : cursor ≤ (statementAt tokens cursor).2 ∧
    (statementAt tokens cursor).2 < (withEnd tokens).length
  /-- It makes no difference how the parser has come to its position. -/
  reached : ∀ calls, ((ofTokens tokens).afterCalls calls).position = cursor →
    let outcome := ((ofTokens tokens).afterCalls calls).run statement
    (outcome.1, outcome.2.position) = statementAt tokens cursor
  /-- Tokens behind the position where the call ends make no difference, nor do those before the one
  where it begins, so no change of them repairs an error. -/
  decided : ∀ tokens', cursor < (withEnd tokens').length →
    (∀ i, cursor ≤ i → i ≤ (statementAt tokens cursor).2 →
      (withEnd tokens')[i]? = (withEnd tokens)[i]?) →
    statementAt tokens' cursor = statementAt tokens cursor
  replaced : ∀ front back, front.length = cursor →
    let seen := ((withEnd tokens).take ((statementAt tokens cursor).2 + 1)).drop cursor
    statementAt (front ++ seen ++ back) cursor = statementAt tokens cursor
  /-- Nothing counts behind an end mark, whatever the parser is asked for. -/
  pastEnd : ∀ front stop back, tokens = front ++ stop :: back → stop.kind = .endOfInput → ∀ back',
    ofTokens (front ++ stop :: back') = ofTokens tokens ∧
      (cursor ≤ front.length →
        statementAt (front ++ stop :: back') cursor = statementAt tokens cursor)

theorem statementAt_of_passes {ts : List Token} (h : Passes (ofTokens tokens) ts p) :
    ((p.run statement).1, (p.run statement).2.position) = statementAt tokens p.position := by
  have hAbreast : Abreast (statementAt tokens p.position).2 (standing tokens p.position) p := by
    rw [standing_of_passes h]
    exact ⟨rfl, fun _ _ => rfl⟩
  have hSame := statement_of_abreast (ready_standing tokens p.position)
    (h.ready (ready_ofTokens tokens)) hAbreast (Nat.le_refl _)
  exact Prod.ext hSame.1 hSame.2

theorem position_statementAt (tokens : List Token) (cursor : Nat) :
    ∃ ts, (standing tokens cursor).rest = ts ++ ((standing tokens cursor).run statement).2.rest ∧
      (statementAt tokens cursor).2 = cursor + ts.length := by
  have hLocal : Local (standing tokens cursor).rest.length 0 statement statement := local_statement
  obtain ⟨ts, hConfined⟩ := hLocal _ (ready_standing tokens cursor)
  exact ⟨ts, hConfined.passes.rest, hConfined.passes.position⟩

theorem statementAt_le (tokens : List Token) (cursor : Nat) :
    (statementAt tokens cursor).2 ≤ cursor + (standing tokens cursor).rest.length := by
  obtain ⟨ts, hRest, hPosition⟩ := position_statementAt tokens cursor
  rw [hPosition, hRest, List.length_append]
  omega

theorem statementAt_of_agree (h : cursor < (withEnd tokens).length)
    (h' : cursor < (withEnd tokens').length)
    (hAgree : ∀ i, cursor ≤ i → i ≤ (statementAt tokens cursor).2 →
      (withEnd tokens')[i]? = (withEnd tokens)[i]?) :
    statementAt tokens' cursor = statementAt tokens cursor := by
  have hAbreast := abreast_standing h h' (statementAt_le tokens cursor) hAgree
  have hSame := statement_of_abreast (ready_standing tokens cursor) (ready_standing tokens' cursor)
    hAbreast (Nat.le_refl _)
  exact Prod.ext hSame.1 hSame.2

theorem statementAt_lt (h : cursor < (withEnd tokens).length) :
    (statementAt tokens cursor).2 < (withEnd tokens).length := by
  obtain ⟨back, hDrop⟩ := drop_withEnd h
  have hLength := congrArg List.length hDrop
  have hEnd := statementAt_le tokens cursor
  rw [List.length_drop, List.length_append, List.length_cons] at hLength
  omega

end SqlStore.Parser
