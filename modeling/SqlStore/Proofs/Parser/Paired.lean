import SqlStore.Proofs.Parser.Pairing
import SqlStore.Proofs.Parser.Statement

/-!
# Readers beside each other

Every reader below statements matches itself: it takes the same steps beside itself, down to the
single tokens, and none of them looks for a terminator.
-/
namespace SqlStore.Parser.Pairing
set_option autoImplicit false

variable {w : Pairing} {limit : Nat}

theorem rel_of_eq {α : Type} {x y : Option α} (h : x = y) : Option.Rel Eq x y := by
  subst h
  cases x with
  | none => exact .none
  | some a => exact .some rfl

theorem matches_check {kind : TokenKind} (hEnd : kind ≠ .endOfInput)
    (hTail : w.tail ≠ [] → kind ≠ .terminator) :
    w.Matches limit 0 Eq (check kind) (check kind) :=
  matches_look (looks_check hEnd) (blind_kind hEnd hTail)

/-! ### Conditions -/

theorem matches_literal : w.Matches limit 1 Eq literal literal := by
  have hRun : ∀ parser : Parser, parser.run literal = takeToken Token.literal? .literal parser := by
    intro parser
    rw [run_literal, takeToken]
    cases parser.current.literal? <;> rfl
  refine matches_takeToken hRun (fun h => rel_of_eq (w.alike h).literal?) ?_
  rintro t (hKind | hKind) <;> rw [Token.literal?, hKind]

theorem operandOf?_eq_none (t : Token) (h : t.kind = .endOfInput ∨ t.kind = .terminator) :
    operandOf? t = none := by
  rcases h with h | h <;> simp [operandOf?, Token.literal?, h]

theorem matches_operand : w.Matches limit 1 Eq operand operand := by
  have hRun : ∀ parser : Parser, parser.run operand = takeToken operandOf? .operand parser := by
    intro parser
    rw [run_operand, takeToken]
    cases operandOf? parser.current <;> rfl
  exact matches_takeToken hRun (fun h => rel_of_eq (w.alike h).operandOf?) operandOf?_eq_none

theorem matches_comparator : w.Matches limit 1 Eq comparator comparator := by
  refine matches_index_bind fun i => (matches_consume (by decide) (by decide)).bind ?_
  rintro t u ⟨hTokens, hLexeme⟩
  rw [hLexeme (by decide)]
  split
  · exact matches_pure rfl
  · exact matches_fail (.unexpectedToken .comparator (.inl hTokens))

theorem matches_comparison : w.Matches limit 1 Eq comparison comparison :=
  matches_operand.andThen fun left => matches_comparator.andThen fun op =>
    matches_operand.map (Condition.comparison left op)

theorem matches_chain {cost : Nat} {item item' : ParseM Condition} (word : String)
    (join : Condition → Condition → Condition) (h : w.Matches limit cost Eq item item') :
    w.Matches limit cost Eq (chain word join item) (chain word join item') :=
  h.andThen (loopMatches_stepIf (looks_checkConnective word) (blind_isConnective word)
    fun left => h.map (join left)).repeatWhile

theorem run_conditionWithin_error {parser : Parser} (hOperand : operandOf? parser.current = none)
    (hOpen : parser.current.kind ≠ .parenOpen) (depth : Nat) :
    parser.run (conditionWithin depth) =
      (.error ⟨.unexpectedToken .operand parser.current, parser.position⟩, parser) := by
  cases depth with
  | zero => rfl
  | succ depth =>
    have hCheck : parser.run (check .parenOpen) = (.ok false, parser) := by
      rw [run_check, beq_eq_false_iff_ne.mpr hOpen]
    have hComparison : parser.run comparison = _ :=
      run_bind_error parser (by rw [run_operand, hOperand])
    refine run_bind_error parser (run_bind_error parser ?_)
    rw [run_bind_ok parser hCheck]
    exact hComparison

/-- Both depths are enough, so that they differ makes no difference. -/
theorem matches_conditionWithin {limit depth depth' : Nat} (hDepth : limit ≤ depth)
    (hDepth' : limit + w.tail.length ≤ depth') :
    w.Matches limit 0 Eq (conditionWithin depth) (conditionWithin depth') := by
  induction limit generalizing depth depth' with
  | zero =>
    -- One depth may be used up where the other is not, but no parenthesis is ahead of either parser.
    intro p q hBeside hLimit
    have hRest := List.eq_nil_of_length_eq_zero (Nat.le_zero.mp hLimit)
    obtain ⟨hEnd, hEnd'⟩ := hBeside.kinds_of_rest_nil hRest
    have hOpen : p.current.kind ≠ .parenOpen := by simp [hEnd]
    have hOpen' : q.current.kind ≠ .parenOpen := by rcases hEnd' with h | h <;> simp [h]
    rw [run_conditionWithin_error (operandOf?_eq_none _ (.inl hEnd)) hOpen,
      run_conditionWithin_error (operandOf?_eq_none _ hEnd') hOpen']
    exact .error ⟨hBeside.position, .unexpectedToken .operand hBeside.found⟩
  | succ limit ih =>
    obtain ⟨depth, rfl⟩ : ∃ n, depth = n + 1 := ⟨depth - 1, by omega⟩
    obtain ⟨depth', rfl⟩ : ∃ n, depth' = n + 1 := ⟨depth' - 1, by omega⟩
    have hInner : w.Matches limit 0 Eq (conditionWithin depth) (conditionWithin depth') :=
      ih (by omega) (by omega)
    have hOpen : w.Matches (limit + 1) 0 Eq (check .parenOpen) (check .parenOpen) :=
      matches_check (by decide) fun _ => by decide
    have hPrimary := hOpen.ite (matches_parenthesized_succ hInner) matches_comparison
    exact matches_chain "OR" .or (matches_chain "AND" .and hPrimary)

theorem matches_condition : w.Matches limit 0 Eq condition condition := by
  intro p q hBeside hLimit
  rw [condition, run_bind_ok p (run_get p), run_bind_ok q (run_get q)]
  exact matches_conditionWithin (Nat.le_refl _) (Nat.le_of_eq hBeside.length_rest.symm) p q hBeside
    (Nat.le_refl _)

/-! ### Columns -/

theorem matches_size (type : DataType) : w.Matches limit 1 Eq (size type) (size type) := by
  refine matches_index_bind fun i => (matches_consume (by decide) (by decide)).bind ?_
  rintro t u ⟨hTokens, hLexeme⟩
  rw [hLexeme (by decide)]
  split
  · exact matches_pure rfl
  · exact matches_fail (.same fun _ _ => nofun)

theorem matches_secondSize (type : DataType) :
    w.Matches limit 0 Eq (secondSize type) (secondSize type) := by
  unfold secondSize
  split
  · exact matches_pure rfl
  · exact (matches_stepIf (looks_check (by decide)) (blind_kind (by decide) fun _ => by decide)).ite
      ((matches_size type).map some) (matches_pure rfl)

theorem matches_sizes (type : DataType) : w.Matches limit 1 Eq (sizes type) (sizes type) :=
  matches_parenthesized <| (matches_size type).andThen fun first =>
    (matches_secondSize type).map (type.sized first)

theorem matches_dataType : w.Matches limit 1 Eq dataType dataType := by
  refine matches_index_bind fun i => (matches_consume (by decide) (by decide)).bind ?_
  rintro t u ⟨hTokens, -⟩
  rw [(w.alike hTokens).keyword]
  split
  · exact matches_fail (.unexpectedToken .dataType (.inl hTokens))
  · rename_i type _
    have hSizes : w.Matches limit 1 Eq (if type.maxSizes = 0 then
          index >>= fun i => fail (.sizesNotAllowed type.keyword) i else sizes type)
        (if type.maxSizes = 0 then
          index >>= fun i => fail (.sizesNotAllowed type.keyword) i else sizes type) := by
      split
      · exact matches_index_bind fun i => matches_fail (.same fun _ _ => nofun)
      · exact matches_sizes type
    exact (matches_check (by decide) fun _ => by decide).ite hSizes (matches_pure rfl)

theorem matches_constraintBody {t u : Token} (h : w.related t u) (i : Nat) :
    w.Matches limit 0 Eq (constraintBody t i) (constraintBody u (i + w.shift)) := by
  unfold constraintBody
  rw [(w.alike h).keyword]
  split
  case h_1 | h_2 | h_3 => exact matches_pure rfl
  case h_4 => exact (matches_literal.map Constraint.default).uncounted
  case h_5 => exact ((matches_parenthesized matches_condition).map Constraint.check).uncounted
  case h_6 => exact matches_fail (.unexpectedToken .constraint (.inl h))

/-- Only where a keyword stands ahead, because the reader steps without a look. -/
theorem agrees_constraint {p q : Parser} (hBeside : w.Beside p q)
    (hKind : p.current.kind = .keyword) :
    w.Agrees Eq (p.rest.length - 1) (p.run constraint) (q.run constraint) := by
  have hRun : ∀ parser : Parser, parser.run constraint =
      parser.next.run (constraintBody parser.current parser.position) := fun _ => rfl
  have hBlind : w.Blind (·.kind == .keyword) := blind_kind (by decide) fun _ => by decide
  obtain ⟨hTokens, hNext, hLength⟩ := hBlind.next hBeside (by simp [hKind])
  rw [hRun, hRun, hBeside.position]
  exact (matches_constraintBody hTokens p.position _ _ hNext (Nat.le_refl _)).mono (by omega)

theorem loopMatches_constraint :
    w.LoopMatches limit (check .keyword) (fun read => return read ++ [← constraint])
      (fun read => return read ++ [← constraint]) where
  round {p q} read hBeside hLimit := by
    have hBlind : w.Blind (·.kind == .keyword) := blind_kind (by decide) fun _ => by decide
    rw [run_check, run_check, ← hBlind.current hBeside]
    cases hYes : p.current.kind == .keyword with
    | false => exact .inl ⟨rfl, rfl⟩
    | true =>
      obtain ⟨-, -, hLength⟩ := hBlind.next hBeside hYes
      refine .inr ⟨List.ne_nil_of_length_pos (by omega), p, q, rfl, rfl, ?_⟩
      refine (agrees_constraint hBeside (by simpa using hYes)).bind ?_
      rintro constraint _ p' q' rfl hBeside' hFits
      exact .ok rfl hBeside' hFits

theorem matches_constraints : w.Matches limit 0 Eq constraints constraints :=
  loopMatches_constraint.repeatWhile []

theorem matches_column : w.Matches limit 1 Eq column column := by
  refine (matches_consume (by decide) (by decide)).bind ?_
  rintro t u ⟨hTokens, hLexeme⟩
  rw [hLexeme (by decide)]
  exact (matches_dataType.andThen fun type => matches_constraints.andThen fun constraints =>
    (matches_record _ _).map fun _ => _).uncounted

/-! ### Statements -/

theorem matches_distinctColumn (columns : List Column) :
    w.Matches limit 1 Eq (distinctColumn columns) (distinctColumn columns) := by
  refine matches_index_bind fun i => matches_column.bind ?_
  rintro column _ rfl
  split
  · exact matches_fail (.same fun _ _ => nofun)
  · exact matches_pure rfl

theorem matches_tableEntry (entries : List Column × List Condition) :
    w.Matches limit 0 Eq (tableEntry entries) (tableEntry entries) :=
  (matches_stepIf (looks_checkKeyword .check) (blind_isKeyword .check)).ite
    ((matches_parenthesized matches_condition).map _) ((matches_distinctColumn _).map _)

theorem matches_createTable : w.Matches limit 1 Eq createTable createTable := by
  have hEntries : w.Matches limit 1 Eq (column >>= fun first =>
      repeatWhile (accept .comma) tableEntry ([first], [])) _ :=
    matches_column.andThen fun _ => (loopMatches_comma matches_tableEntry).repeatWhile _
  refine (matches_consumeKeyword _).andThen fun _ => (matches_consumeKeyword _).andThen fun _ =>
    (matches_consume (by decide) (by decide)).bind ?_
  rintro t u ⟨-, hLexeme⟩
  rw [hLexeme (by decide)]
  exact ((matches_parenthesized hEntries).map _).uncounted

theorem matches_distinctName (names : List String) :
    w.Matches limit 1 Eq (distinctName names) (distinctName names) := by
  refine matches_index_bind fun i => (matches_consume (by decide) (by decide)).bind ?_
  rintro t u ⟨hTokens, hLexeme⟩
  rw [hLexeme (by decide)]
  split
  · exact matches_fail (.same fun _ _ => nofun)
  · exact matches_pure rfl

theorem matches_row : w.Matches limit 1 Eq row row :=
  matches_parenthesized <|
    matches_separated (fun values => matches_literal.map fun value => values ++ [value]) []

theorem matches_rowOf (width : Nat) (rows : List Row) :
    w.Matches limit 1 Eq (rowOf width rows) (rowOf width rows) := by
  refine matches_index_bind fun i => matches_row.bind ?_
  rintro row _ rfl
  split
  · exact matches_pure rfl
  · exact matches_fail (.same fun _ _ => nofun)

theorem matches_insertInto : w.Matches limit 1 Eq insertInto insertInto := by
  have hNames : w.Matches limit 1 Eq (separated distinctName []) (separated distinctName []) :=
    matches_separated matches_distinctName []
  have hRows : ∀ width,
      w.Matches limit 1 Eq (separated (rowOf width) []) (separated (rowOf width) []) :=
    fun width => matches_separated (matches_rowOf width) []
  refine (matches_consumeKeyword _).andThen fun _ => (matches_consumeKeyword _).andThen fun _ =>
    (matches_consume (by decide) (by decide)).bind ?_
  rintro t u ⟨-, hLexeme⟩
  rw [hLexeme (by decide)]
  exact ((matches_parenthesized hNames).andThen fun columns =>
    (matches_consumeKeyword .values).andThen fun _ => (hRows columns.length).map _).uncounted

end SqlStore.Parser.Pairing
