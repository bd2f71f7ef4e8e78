import SqlStore.Proofs.Parser.Script

/-!
# Traces of readers

A trace lists the positions of the tokens that a reader looks at while it runs. It also says that
readers do nothing to a parser but look at the current token, step over a token that is left, record
what they have read, and fail. A trace follows loops and nested conditions for as long as they go
on. So a reader whose runs have traces ends by itself, and its bounds cut nothing off.
-/
namespace SqlStore.Parser
set_option autoImplicit false

/-- The levels of a condition, given the reader for what stands in parentheses. -/
def conditionOver (inner : ParseM Condition) : ParseM Condition :=
  chain "OR" .or (chain "AND" .and (check .parenOpen >>= fun isOpening =>
    if isOpening then parenthesized inner else comparison))

/-- A run of a reader on a parser, with the positions that it looks at in their order. A step is
taken over a token, never at the end mark. Loops and conditions have no bounds here. -/
inductive Trace : {α : Type} → ParseM α → Parser → List Nat → Except ParseError α × Parser → Prop
  | pure {α : Type} {a : α} {parser : Parser} : Trace (pure a) parser [] (.ok a, parser)
  | fail {α : Type} {fault : ParseFault} {i : Nat} {parser : Parser} :
      Trace (fail fault i : ParseM α) parser [] (.error ⟨fault, i⟩, parser)
  | unexpected {α : Type} {expected : Expectation} {parser : Parser} :
      Trace (unexpected expected : ParseM α) parser [parser.position]
        (.error ⟨.unexpectedToken expected parser.current, parser.position⟩, parser)
  | index {parser : Parser} : Trace index parser [] (.ok parser.position, parser)
  | peek {parser : Parser} : Trace peek parser [parser.position] (.ok parser.current, parser)
  | atEnd {α : Type} {f : Bool → α} {parser : Parser} :
      Trace (get >>= fun p => Pure.pure (f p.atEnd)) parser [parser.position]
        (.ok (f parser.atEnd), parser)
  | advance {parser : Parser} (isLeft : parser.rest ≠ []) :
      Trace advance parser [parser.position] (.ok (), parser.next)
  | record {event : ParseEvent} {parser : Parser} :
      Trace (record event) parser [] (.ok (), { parser with events := event :: parser.events })
  | bind {α β : Type} {first : ParseM α} {next : α → ParseM β} {parser middle : Parser} {a : α}
      {looks more : List Nat} {result : Except ParseError β × Parser}
      (front : Trace first parser looks (.ok a, middle))
      (back : Trace (next a) middle more result) :
      Trace (first >>= next) parser (looks ++ more) result
  | broken {α β : Type} {first : ParseM α} {next : α → ParseM β} {parser after : Parser}
      {e : ParseError} {looks : List Nat} (front : Trace first parser looks (.error e, after)) :
      Trace (first >>= next) parser looks (.error e, after)
  | loop {α : Type} {more : ParseM Bool} {step : α → ParseM α} {a : α} {parser : Parser}
      {looks : List Nat} {result : Except ParseError α × Parser}
      (round : Trace (more >>= fun yes =>
        if yes then step a >>= repeatWhile more step else Pure.pure a) parser looks result) :
      Trace (repeatWhile more step a) parser looks result
  | nested {parser : Parser} {looks : List Nat} {result : Except ParseError Condition × Parser}
      (levels : Trace (conditionOver condition) parser looks result) :
      Trace condition parser looks result

/-- The parser has moved over tokens, and what was looked at on the way lies between. -/
theorem Trace.passes {α : Type} {reader : ParseM α} {parser : Parser} {looks : List Nat}
    {result : Except ParseError α × Parser} (h : Trace reader parser looks result) :
    ∃ ts, Passes parser ts result.2 ∧
      ∀ i ∈ looks, parser.position ≤ i ∧ i ≤ result.2.position := by
  induction h with
  | pure | fail | index => exact ⟨[], .refl _, nofun⟩
  | unexpected | peek | atEnd => exact ⟨[], .refl _, by simp⟩
  | record => exact ⟨[], ⟨rfl, rfl, rfl⟩, nofun⟩
  | broken _ ih | loop _ ih | nested _ ih => exact ih
  | advance isLeft =>
    obtain ⟨t, us, hRest⟩ := List.exists_cons_of_ne_nil isLeft
    have hPasses := Passes.next hRest
    exact ⟨[t], hPasses, by simp [hPasses.position]⟩
  | bind _ _ ih ih' =>
    obtain ⟨ts, hFront, hLooks⟩ := ih
    obtain ⟨us, hBack, hMore⟩ := ih'
    have hFrontPosition := hFront.position
    have hBackPosition := hBack.position
    dsimp only at hLooks hFrontPosition
    refine ⟨ts ++ us, hFront.trans hBack, fun i hi => ?_⟩
    rcases List.mem_append.mp hi with hi | hi
    · have := hLooks i hi
      omega
    · have := hMore i hi
      omega

/-- There is a trace of the first reader, without bounds, whose result is that of the second. -/
def HasTrace {α : Type} (reader bounded : ParseM α) (parser : Parser) : Prop :=
  ∃ looks, Trace reader parser looks (parser.run bounded)

def Traced {α : Type} (limit : Nat) (reader bounded : ParseM α) : Prop :=
  ∀ parser : Parser, Ready limit parser → HasTrace reader bounded parser

def Traceable {α : Type} (limit : Nat) (reader : ParseM α) : Prop :=
  Traced limit reader reader

variable {α β : Type} {limit : Nat}

theorem Passes.length_rest {parser after : Parser} {ts : List Token}
    (h : Passes parser ts after) : parser.rest.length = ts.length + after.rest.length := by
  rw [h.rest, List.length_append]

theorem HasTrace.passes {reader bounded : ParseM α} {parser : Parser}
    (h : HasTrace reader bounded parser) : ∃ ts, Passes parser ts (parser.run bounded).2 := by
  obtain ⟨looks, hTrace⟩ := h
  obtain ⟨ts, hPasses, -⟩ := hTrace.passes
  exact ⟨ts, hPasses⟩

theorem HasTrace.ready {reader bounded : ParseM α} {parser after : Parser}
    {outcome : Except ParseError α} (h : HasTrace reader bounded parser)
    (hReady : Ready limit parser) (hRun : parser.run bounded = (outcome, after)) :
    Ready limit after := by
  obtain ⟨ts, hPasses⟩ := h.passes
  rw [hRun] at hPasses
  exact hPasses.ready hReady

theorem HasTrace.bind {first first' : ParseM α} {next next' : α → ParseM β} {parser : Parser}
    (h : HasTrace first first' parser)
    (hNext : ∀ a middle, parser.run first' = (.ok a, middle) →
      HasTrace (next a) (next' a) middle) :
    HasTrace (first >>= next) (first' >>= next') parser := by
  obtain ⟨looks, hTrace⟩ := h
  rcases hRun : parser.run first' with ⟨e | a, middle⟩ <;> rw [hRun] at hTrace
  · rw [HasTrace, run_bind_error parser hRun]
    exact ⟨looks, .broken hTrace⟩
  · obtain ⟨more, hMore⟩ := hNext a middle hRun
    rw [HasTrace, run_bind_ok parser hRun]
    exact ⟨looks ++ more, .bind hTrace hMore⟩

theorem Traced.bind {first first' : ParseM α} {next next' : α → ParseM β}
    (h : Traced limit first first') (hNext : ∀ a, Traced limit (next a) (next' a)) :
    Traced limit (first >>= next) (first' >>= next') :=
  fun parser hReady => (h parser hReady).bind fun a _ hRun =>
    hNext a _ ((h parser hReady).ready hReady hRun)

theorem Traced.mono {reader bounded : ParseM α} {limit' : Nat} (h : Traced limit reader bounded)
    (hLimit : limit' ≤ limit) : Traced limit' reader bounded :=
  fun parser hReady => h parser ⟨hReady.stop, Nat.le_trans hReady.rest hLimit⟩

theorem traceable_pure (a : α) : Traceable limit (pure a) :=
  fun _ _ => ⟨[], .pure⟩

theorem Traced.map {reader bounded : ParseM α} (h : Traced limit reader bounded) (f : α → β) :
    Traced limit (reader >>= fun a => pure (f a)) (bounded >>= fun a => pure (f a)) :=
  h.bind fun a => traceable_pure (f a)

theorem traceable_fail (fault : ParseFault) (i : Nat) :
    Traceable limit (fail fault i : ParseM α) :=
  fun _ _ => ⟨[], .fail⟩

theorem traceable_unexpected (expected : Expectation) :
    Traceable limit (unexpected expected : ParseM α) :=
  fun _ _ => ⟨_, .unexpected⟩

theorem traceable_index : Traceable limit index :=
  fun _ _ => ⟨[], .index⟩

theorem traceable_peek : Traceable limit peek :=
  fun _ _ => ⟨_, .peek⟩

theorem traceable_record (event : ParseEvent) : Traceable limit (record event) :=
  fun _ _ => ⟨[], .record⟩

/-! ### Single tokens -/

theorem hasTrace_advance {parser : Parser} (hReady : Ready limit parser)
    (hKind : parser.current.kind ≠ .endOfInput) : HasTrace advance advance parser := by
  obtain ⟨us, hRest⟩ := hReady.rest_eq hKind
  exact ⟨_, .advance (hRest ▸ List.cons_ne_nil _ _)⟩

/-- A step over the current token once a look has shown that it is no end mark. -/
theorem hasTrace_advance_bind {next : ParseM α} (hNext : Traceable limit next) {parser : Parser}
    (hReady : Ready limit parser) (hKind : parser.current.kind ≠ .endOfInput) :
    HasTrace (advance >>= fun _ => next) (advance >>= fun _ => next) parser := by
  have hAdvance := hasTrace_advance hReady hKind
  exact hAdvance.bind fun _ middle hRun => hNext middle (hAdvance.ready hReady hRun)

theorem traceable_check (kind : TokenKind) : Traceable limit (check kind) :=
  traceable_peek.map fun t => t.kind == kind

theorem traceable_checkKeyword (keyword : Keyword) : Traceable limit (checkKeyword keyword) :=
  traceable_peek.map fun t => t.isKeyword keyword

theorem traceable_checkConnective (word : String) : Traceable limit (checkConnective word) :=
  traceable_peek.map fun t => t.isConnective word

theorem Traced.ite {test : ParseM Bool} {yes yes' no no' : ParseM α} (h : Traceable limit test)
    (hYes : Traced limit yes yes') (hNo : Traced limit no no') :
    Traced limit (test >>= fun b => if b then yes else no)
      (test >>= fun b => if b then yes' else no') := by
  refine h.bind fun b => ?_
  cases b
  · exact hNo
  · exact hYes

theorem traceable_stepIf {test : ParseM Bool} {p : Token → Bool} (hTest : Looks test p)
    (h : Traceable limit test) : Traceable limit (stepIf test) := by
  intro parser hReady
  refine (h parser hReady).bind fun yes middle hRun => ?_
  rw [hTest.run parser] at hRun
  cases hRun
  cases hp : p parser.current with
  | false => exact traceable_pure false parser hReady
  | true => exact hasTrace_advance_bind (traceable_pure true) hReady (hTest.atEnd _ hp)

theorem traceable_accept {kind : TokenKind} (hKind : kind ≠ .endOfInput) :
    Traceable limit (accept kind) :=
  traceable_stepIf (looks_check hKind) (traceable_check kind)

theorem traceable_consume {kind : TokenKind} (expected : Expectation)
    (hKind : kind ≠ .endOfInput) : Traceable limit (consume kind expected) := by
  intro parser hReady
  refine (traceable_peek parser hReady).bind ?_
  rintro _ _ ⟨⟩
  split
  · rename_i hIs
    exact hasTrace_advance_bind (traceable_pure parser.current) hReady (by rwa [hIs])
  · exact traceable_unexpected expected parser hReady

theorem traceable_consumeKeyword (keyword : Keyword) :
    Traceable limit (consumeKeyword keyword) := by
  intro parser hReady
  refine (traceable_checkKeyword keyword parser hReady).bind ?_
  rintro _ _ ⟨⟩
  split
  · rename_i hIs
    exact hasTrace_advance hReady (by simp [kind_of_isKeyword hIs])
  · exact traceable_unexpected (.keyword keyword) parser hReady

theorem traced_parenthesized {inner inner' : ParseM α} (h : Traced limit inner inner') :
    Traced (limit + 1) (parenthesized inner) (parenthesized inner') := by
  intro parser hReady
  refine (traceable_consume .parenOpen (by decide) parser hReady).bind fun opening middle hRun => ?_
  have hOpening : Reads (limit + 1) (consume .parenOpen .parenOpen) _ anyToken :=
    reads_consume .parenOpen _ (by decide)
  obtain ⟨_, hPasses, rfl, -⟩ := (hOpening parser hReady).sound hRun
  have hInner := h.bind fun a =>
    (traceable_consume .parenClose (by decide : TokenKind.parenClose ≠ .endOfInput)).map fun _ => a
  exact hInner middle (hPasses.ready_of_cons hReady)

theorem traceable_parenthesized {inner : ParseM α} (h : Traceable limit inner) :
    Traceable limit (parenthesized inner) :=
  (traced_parenthesized h).mono (Nat.le_succ limit)

/-! ### Loops -/

/-- Every round takes a token, and the test answers no when none is left. So the loop ends by its
test, however large its bound is, and the step may rely on the answer of the test. -/
theorem traced_repeatWhile {more : ParseM Bool} {step step' : α → ParseM α}
    (hMore : Traceable limit more)
    (hEnd : ∀ parser, Ready 0 parser → parser.run more = (.ok false, parser))
    (hStep : ∀ a parser led, Ready limit parser → parser.run more = (.ok true, led) →
      HasTrace (step a) (step' a) led ∧ ∀ b after, led.run (step' a) = (.ok b, after) →
        after.rest.length < parser.rest.length) (a : α) :
    Traced limit (repeatWhile more step a) (repeatWhile more step' a) := by
  have hBounded : ∀ bound a parser, Ready limit parser → parser.rest.length ≤ bound →
      HasTrace (repeatWhile more step a) (iterate more step' bound a) parser := by
    intro bound
    induction bound with
    | zero =>
      intro a parser hReady hBound
      obtain ⟨looks, hTrace⟩ := hMore parser hReady
      rw [hEnd parser ⟨hReady.stop, hBound⟩] at hTrace
      exact ⟨looks ++ [], .loop (.bind hTrace .pure)⟩
    | succ bound ih =>
      intro a parser hReady hBound
      have hRound : HasTrace
          (more >>= fun yes => if yes then step a >>= repeatWhile more step else pure a)
          (more >>= fun yes => if yes then step' a >>= iterate more step' bound else pure a)
          parser := by
        refine (hMore parser hReady).bind fun yes led hRun => ?_
        have hLed := (hMore parser hReady).ready hReady hRun
        cases yes with
        | false => exact traceable_pure a led hLed
        | true =>
          obtain ⟨hTrace, hShorter⟩ := hStep a parser led hReady hRun
          refine hTrace.bind fun b after hAfter => ih b after (hTrace.ready hLed hAfter) ?_
          have := hShorter b after hAfter
          omega
      obtain ⟨looks, hTrace⟩ := hRound
      exact ⟨looks, .loop hTrace⟩
  exact fun parser hReady => hBounded _ a parser hReady (Nat.le_refl _)

theorem current_of_ready_zero {parser : Parser} (hReady : Ready 0 parser) :
    parser.current.kind = .endOfInput := by
  rw [current, List.eq_nil_of_length_eq_zero (Nat.le_zero.mp hReady.rest)]
  exact hReady.stop

/-- A loop whose test steps over the token by which it goes on. -/
theorem traced_repeatWhile_stepIf {test : ParseM Bool} {p : Token → Bool}
    {step step' : α → ParseM α} (hTest : Looks test p) (hMore : Traceable limit test)
    (hStep : ∀ a, Traced limit (step a) (step' a)) (a : α) :
    Traced limit (repeatWhile (stepIf test) step a) (repeatWhile (stepIf test) step' a) := by
  refine traced_repeatWhile (traceable_stepIf hTest hMore) ?_ ?_ a
  · intro parser hReady
    rw [run_stepIf parser (hTest.run parser)]
    cases hp : p parser.current with
    | false => rfl
    | true => exact absurd (current_of_ready_zero hReady) (hTest.atEnd _ hp)
  · intro a parser led hReady hRun
    rw [run_stepIf parser (hTest.run parser)] at hRun
    obtain ⟨hYes, rfl⟩ := Prod.ext_iff.mp hRun
    have hp : p parser.current = true := Except.ok.inj hYes
    obtain ⟨us, hRest⟩ := hReady.rest_eq (hTest.atEnd _ hp)
    have hNext := Passes.next hRest
    simp only [hp, if_true]
    have hTrace := hStep a parser.next (hNext.ready hReady)
    refine ⟨hTrace, fun b after hAfter => ?_⟩
    obtain ⟨ts, hPasses⟩ := hTrace.passes
    rw [hAfter] at hPasses
    have := (hNext.trans hPasses).length_rest
    simp only [List.length_append, List.length_singleton] at this
    omega

theorem traceable_separated {step : α → ParseM α} (hStep : ∀ a, Traceable limit (step a)) (a : α) :
    Traceable limit (separated step a) :=
  (hStep a).bind
    (traced_repeatWhile_stepIf (looks_check (by decide)) (traceable_check .comma) hStep)

/-! ### Conditions -/

theorem traceable_literal : Traceable limit literal := by
  intro parser hReady
  refine (traceable_peek parser hReady).bind ?_
  rintro _ _ ⟨⟩
  split
  · rename_i value hValue
    exact hasTrace_advance_bind (traceable_pure value) hReady (kind_of_literal? hValue)
  · exact traceable_unexpected .literal parser hReady

theorem traceable_operand : Traceable limit operand := by
  intro parser hReady
  refine (traceable_peek parser hReady).bind ?_
  rintro _ _ ⟨⟩
  split
  · rename_i hKind
    exact hasTrace_advance_bind (traceable_pure (Operand.column parser.current.lexeme)) hReady
      (by simp [hKind])
  · split
    · rename_i value hValue
      exact hasTrace_advance_bind (traceable_pure (Operand.value value)) hReady
        (kind_of_literal? hValue)
    · exact traceable_unexpected .operand parser hReady

theorem traceable_comparator : Traceable limit comparator := by
  refine traceable_index.bind fun start => (traceable_consume _ (by decide)).bind fun token => ?_
  split
  · exact traceable_pure _
  · exact traceable_fail _ _

theorem traceable_comparison : Traceable limit comparison :=
  traceable_operand.bind fun left => traceable_comparator.bind fun op =>
    traceable_operand.map (Condition.comparison left op)

theorem traced_chain (word : String) (join : Condition → Condition → Condition)
    {item item' : ParseM Condition} (h : Traced limit item item') :
    Traced limit (chain word join item) (chain word join item') :=
  h.bind (traced_repeatWhile_stepIf (looks_checkConnective word) (traceable_checkConnective word)
    fun left => h.map (join left))

theorem traced_conditionOver {inner inner' : ParseM Condition} (h : Traced limit inner inner') :
    Traced (limit + 1) (conditionOver inner) (conditionOver inner') :=
  traced_chain _ _ (traced_chain _ _
    (.ite (traceable_check .parenOpen) (traced_parenthesized h) traceable_comparison))

/-- A condition ends by itself, because no parenthesis is ahead when its depth is used up. -/
theorem traced_conditionWithin (depth : Nat) :
    Traced depth condition (conditionWithin depth) := by
  induction depth with
  | zero =>
    intro parser hReady
    have hKind := current_of_ready_zero hReady
    have hNone : operandOf? parser.current = none := by
      simp [operandOf?, Token.literal?, hKind]
    obtain ⟨looks, hOperand⟩ := traceable_operand parser hReady
    obtain ⟨looks', hCheck⟩ := traceable_check .parenOpen parser hReady
    rw [run_operand, hNone] at hOperand
    rw [run_check, hKind] at hCheck
    exact ⟨_, .nested (.broken (.broken (.bind hCheck (.broken hOperand))))⟩
  | succ depth ih =>
    intro parser hReady
    obtain ⟨looks, hTrace⟩ := traced_conditionOver ih parser hReady
    exact ⟨looks, .nested hTrace⟩

theorem traceable_condition : Traceable limit condition := by
  intro parser hReady
  exact traced_conditionWithin _ parser ⟨hReady.stop, Nat.le_refl _⟩

theorem traceable_parenthesizedCondition : Traceable limit (parenthesized condition) :=
  traceable_parenthesized traceable_condition

/-! ### Columns -/

theorem traceable_size (type : DataType) : Traceable limit (size type) := by
  refine traceable_index.bind fun start => (traceable_consume _ (by decide)).bind fun token => ?_
  split
  · exact traceable_pure _
  · exact traceable_fail _ _

theorem traceable_secondSize (type : DataType) : Traceable limit (secondSize type) := by
  unfold secondSize
  split
  · exact traceable_pure none
  · exact .ite (traceable_accept (by decide)) ((traceable_size type).map some) (traceable_pure none)

theorem traceable_sizes (type : DataType) : Traceable limit (sizes type) :=
  traceable_parenthesized <| (traceable_size type).bind fun first =>
    (traceable_secondSize type).map (type.sized first)

theorem traceable_dataType : Traceable limit dataType := by
  refine traceable_index.bind fun start => (traceable_consume _ (by decide)).bind fun token => ?_
  split
  · exact traceable_fail _ _
  · rename_i type _
    refine .ite (traceable_check .parenOpen) ?_ (traceable_pure type)
    split
    · exact traceable_index.bind fun i => traceable_fail _ _
    · exact traceable_sizes type

theorem traceable_constraintBody (token : Token) (i : Nat) :
    Traceable limit (constraintBody token i) := by
  unfold constraintBody
  split
  · exact traceable_pure _
  · exact traceable_pure _
  · exact traceable_pure _
  · exact traceable_literal.map Constraint.default
  · exact traceable_parenthesizedCondition.map Constraint.check
  · exact traceable_fail _ _

/-- The reader steps without a look, so its loop must have looked. -/
theorem hasTrace_constraint {parser : Parser} (hReady : Ready limit parser)
    (hKind : parser.current.kind = .keyword) : HasTrace constraint constraint parser := by
  refine (traceable_index parser hReady).bind ?_
  rintro _ _ ⟨⟩
  refine (traceable_peek parser hReady).bind ?_
  rintro _ _ ⟨⟩
  exact hasTrace_advance_bind (traceable_constraintBody parser.current parser.position) hReady
    (by simp [hKind])

theorem traceable_constraints : Traceable limit constraints := by
  refine traced_repeatWhile (traceable_check .keyword) ?_ ?_ []
  · intro parser hReady
    rw [run_check, current_of_ready_zero hReady]
    rfl
  · intro read parser led hReady hRun
    rw [run_check] at hRun
    obtain ⟨hLook, rfl⟩ := Prod.ext_iff.mp hRun
    have hKind : parser.current.kind = .keyword := by simpa using Except.ok.inj hLook
    have hForm : Yields _ anyToken parser _ := (yields_constraint hReady hKind).map (read ++ [·])
    have hTrace := hasTrace_constraint hReady hKind
    refine ⟨hTrace.bind fun _ _ _ => ⟨[], .pure⟩, fun b after hAfter => ?_⟩
    obtain ⟨ts, hPasses, constraint, hConstraint, -⟩ := hForm.sound hAfter
    obtain ⟨t, us, rfl, -⟩ := constraintForm_iff.mp hConstraint
    have := hPasses.length_rest
    rw [List.length_cons] at this
    omega

theorem traceable_column : Traceable limit column :=
  (traceable_consume _ (by decide)).bind fun name => traceable_dataType.bind fun type =>
    traceable_constraints.bind fun constraints => (traceable_record _).map fun _ => _

/-! ### Statements -/

theorem traceable_distinctColumn (columns : List Column) :
    Traceable limit (distinctColumn columns) := by
  refine traceable_index.bind fun start => traceable_column.bind fun column => ?_
  split
  · exact traceable_fail _ _
  · exact traceable_pure _

theorem traceable_tableEntry (entries : List Column × List Condition) :
    Traceable limit (tableEntry entries) :=
  .ite (traceable_stepIf (looks_checkKeyword .check) (traceable_checkKeyword .check))
    (traceable_parenthesizedCondition.map fun condition => (entries.1, entries.2 ++ [condition]))
    ((traceable_distinctColumn entries.1).map fun columns => (columns, entries.2))

theorem traceable_createTable : Traceable limit createTable := by
  have hEntries : ∀ first : Column,
      Traceable limit (repeatWhile (accept .comma) tableEntry ([first], [])) := fun first =>
    traced_repeatWhile_stepIf (looks_check (by decide)) (traceable_check .comma)
      traceable_tableEntry ([first], [])
  exact (traceable_consumeKeyword .create).bind fun _ =>
    (traceable_consumeKeyword .table).bind fun _ =>
      (traceable_consume _ (by decide)).bind fun name =>
        (traceable_parenthesized (traceable_column.bind hEntries)).map fun entries =>
          (⟨name.lexeme, entries.1, entries.2⟩ : CreateTable)

theorem traceable_distinctName (names : List String) : Traceable limit (distinctName names) := by
  refine traceable_index.bind fun start => (traceable_consume _ (by decide)).bind fun name => ?_
  split
  · exact traceable_fail _ _
  · exact traceable_pure _

theorem traceable_row : Traceable limit row :=
  traceable_parenthesized (traceable_separated (fun values =>
    traceable_literal.map fun value => values ++ [value]) [])

theorem traceable_rowOf (width : Nat) (rows : List Row) : Traceable limit (rowOf width rows) := by
  refine traceable_index.bind fun start => traceable_row.bind fun row => ?_
  split
  · exact traceable_pure _
  · exact traceable_fail _ _

theorem traceable_insertInto : Traceable limit insertInto :=
  (traceable_consumeKeyword .insert).bind fun _ => (traceable_consumeKeyword .into).bind fun _ =>
    (traceable_consume _ (by decide)).bind fun name =>
      (traceable_parenthesized (traceable_separated traceable_distinctName [])).bind fun columns =>
        (traceable_consumeKeyword .values).bind fun _ =>
          (traceable_separated (traceable_rowOf columns.length) []).map fun rows =>
            (⟨name.lexeme, columns, rows⟩ : InsertInto)

theorem traceable_finish (keyword : Keyword) (first : Nat) (statement : Statement) :
    Traceable limit (finish keyword first statement) :=
  (traceable_accept (by decide)).bind fun _ => traceable_index.bind fun _ =>
    (traceable_record _).map fun _ => statement

theorem traceable_statement : Traceable limit statement := by
  refine traceable_index.bind fun first => traceable_peek.bind fun token => ?_
  split
  · split
    · exact traceable_createTable.bind fun statement => traceable_finish _ _ _
    · exact traceable_insertInto.bind fun statement => traceable_finish _ _ _
    · exact traceable_fail _ _
    · exact traceable_fail _ _
  · exact traceable_unexpected _

theorem traceable_skipTerminators : Traceable limit skipTerminators :=
  traced_repeatWhile_stepIf (looks_check (by decide)) (traceable_check .terminator)
    (fun _ => traceable_pure ()) ()

theorem traceable_anotherStatement : Traceable limit anotherStatement :=
  traceable_skipTerminators.bind fun _ _ _ => ⟨_, .atEnd⟩

theorem traceable_script : Traceable limit script := by
  refine traced_repeatWhile traceable_anotherStatement ?_ ?_ []
  · intro parser hReady
    have hRest := List.eq_nil_of_length_eq_zero (Nat.le_zero.mp hReady.rest)
    have hSkip : parser.run skipTerminators = (.ok (), parser) := by
      rw [skipTerminators, run_repeatWhile, hRest]
      rfl
    rw [anotherStatement, run_bind_ok parser hSkip, run_bind_ok parser (run_get parser), atEnd,
      hRest]
    rfl
  · intro statements parser led hReady hRun
    obtain ⟨gap, hGap, -⟩ := passes_anotherStatement hReady hRun
    have hLed := hGap.ready hReady
    have hForm := (reads_statement.map (statements ++ [·])) led hLed
    have hTrace := traceable_statement led hLed
    refine ⟨hTrace.bind fun _ _ _ => ⟨[], .pure⟩, fun b after hAfter => ?_⟩
    obtain ⟨ts, hPasses, s, hStatement, -⟩ := hForm.sound hAfter
    obtain ⟨t, us, rfl, -⟩ := statementForm_head hStatement.1
    have := (hGap.trans hPasses).length_rest
    simp only [List.length_append, List.length_cons] at this
    omega

end SqlStore.Parser
