import SqlStore.Proofs.Parser.Blame
import SqlStore.Proofs.Parser.Cursor

/-!
# Causes of errors

The error of a statement points at the token that is to blame. A cause says what is wrong with that
token, given all the tokens of the statement before it: what has been read of a list when a name is
repeated, or of the rows when one does not fit.
-/
namespace SqlStore.Parser
open Grammar
set_option autoImplicit false

/-! ### Types and columns -/

/-- Where a size is due after the keyword of a type. -/
inductive SizePlace (type : DataType) : List Token → Prop
  | first {opening : Token} (isOpening : opening.kind = .parenOpen)
      (takesOne : 1 ≤ type.maxSizes) : SizePlace type [opening]
  | second {opening size comma : Token} {n : Size} (isOpening : opening.kind = .parenOpen)
      (isSize : SizeForm size n) (isComma : comma.kind = .comma) (takesTwo : 2 ≤ type.maxSizes) :
      SizePlace type [opening, size, comma]

/-- What can be wrong from the keyword of a type on. -/
inductive TypeCause : Charge
  | unexpectedToken {front more : List Token} {expected : Expectation} {t : Token} :
      TypeCause front (.unexpectedToken expected t) t more
  | sizesNotAllowed {keyword t : Token} {more : List Token} {k : Keyword} {type : DataType}
      (isKeyword : keyword.isKeyword k = true) (ofKeyword : DataType.ofKeyword? k = some type)
      (takesNone : type.maxSizes = 0) (isOpening : t.kind = .parenOpen) :
      TypeCause [keyword] (.sizesNotAllowed k) t more
  | invalidSize {keyword t : Token} {place more : List Token} {k : Keyword} {type : DataType}
      (isKeyword : keyword.isKeyword k = true) (ofKeyword : DataType.ofKeyword? k = some type)
      (isPlace : SizePlace type place) (isNumber : t.kind = .numberLiteral)
      (noSize : Size.ofText? t.lexeme = none) :
      TypeCause (keyword :: place) (.invalidSize k t.lexeme) t more

variable {limit : Nat} {charge : Charge}

theorem blames_size {type : DataType} (hOpen : charge.Open)
    (hNoSize : ∀ t more, t.kind = .numberLiteral → Size.ofText? t.lexeme = none →
      charge [] (.invalidSize type.keyword t.lexeme) t more) : Blames limit (size type) charge := by
  refine blames_checkedToken (by decide) hOpen fun i t isNumber => ?_
  split
  · exact .inr (blames_pure _)
  · rename_i hNone
    exact .inl ⟨_, rfl, fun more => hNoSize t more isNumber hNone⟩

theorem blames_secondSize {type : DataType} (hOpen : charge.Open)
    (hNoSize : ∀ comma t more, comma.kind = .comma → 2 ≤ type.maxSizes →
      t.kind = .numberLiteral → Size.ofText? t.lexeme = none →
      charge [comma] (.invalidSize type.keyword t.lexeme) t more) :
    Blames limit (secondSize type) charge := by
  unfold secondSize
  split
  · exact blames_pure none
  · rename_i hMax
    refine blames_stepChoice (looks_check (by decide)) (fun comma hComma => ?_) (blames_pure none)
    refine .map (blames_size (hOpen.after _) fun t more hKind hNone => ?_) (hOpen.after _) some
    exact hNoSize comma t more (by simpa using hComma) (by omega) hKind hNone

theorem blames_sizes {type : DataType} (hTakes : type.maxSizes ≠ 0) (hOpen : charge.Open)
    (hNoSize : ∀ place t more, SizePlace type place → t.kind = .numberLiteral →
      Size.ofText? t.lexeme = none → charge place (.invalidSize type.keyword t.lexeme) t more) :
    Blames limit (sizes type) charge := by
  refine blames_parenthesized hOpen fun opening isOpening => ?_
  have hFirst : Blames limit (size type) (charge.after [opening]) :=
    blames_size (hOpen.after _) fun t more =>
      hNoSize [opening] t more (.first isOpening (by omega))
  have hReads : Reads limit (size type) (OneToken sizeOf?) anyToken := reads_size type
  refine .bind hReads hFirst ?_
  rintro _ n ⟨size, rfl, hSize⟩
  refine .map (blames_secondSize ((hOpen.after _).after _) fun comma t more isComma takesTwo => ?_)
    ((hOpen.after _).after _) (type.sized n)
  exact hNoSize [opening, size, comma] t more
    (.second isOpening (sizeOf?_eq_some_iff.mp hSize) isComma takesTwo)

theorem open_typeCause : TypeCause.Open :=
  fun _ _ _ _ => .unexpectedToken

theorem blames_dataType : Blames limit dataType TypeCause := by
  refine blames_checkedToken (by decide) open_typeCause fun i token hKind => ?_
  cases hType : (Keyword.ofText? token.lexeme).bind DataType.ofKeyword? with
  | none => exact .inl ⟨_, rfl, fun _ => .unexpectedToken⟩
  | some type =>
    obtain ⟨k, hText, ofKeyword⟩ := Option.bind_eq_some_iff.mp hType
    have isKeyword := isKeyword_iff.mpr ⟨hKind, hText⟩
    rw [← DataType.keyword_of_ofKeyword? ofKeyword] at isKeyword ofKeyword
    refine .inr (blames_choice (looks_check (by decide)) (fun parser hReady hOpening => ?_)
      (blames_pure type))
    have isOpening : parser.current.kind = .parenOpen := by simpa using hOpening
    split
    · rename_i takesNone
      rw [run_bind_ok parser (run_index parser)]
      exact .first (.refl parser) fun more _ =>
        .sizesNotAllowed isKeyword ofKeyword takesNone isOpening
    · rename_i hTakes
      exact blames_sizes hTakes (open_typeCause.after _)
        (fun place t more => .invalidSize isKeyword ofKeyword) parser hReady

theorem blames_column (hOpen : charge.Open)
    (hType : ∀ name front fault t more, name.kind = .identifier →
      TypeCause front fault t more → charge (name :: front) fault t more) :
    Blames limit column charge := by
  refine .takeToken (by decide) hOpen fun name isName => ?_
  have hDataType : Blames limit dataType (charge.after [name]) :=
    blames_dataType.imp fun front fault t more => hType name front fault t more isName
  exact hDataType.andPlain (hOpen.after _) fun type => plain_constraints.bind fun constraints =>
    (plain_record _).map fun _ => _

/-! ### Statements -/

/-- What has been read of a list when another item is due. -/
inductive SoFar {α : Type} (list : List Token → α → Prop) (nothing : α) : List Token → α → Prop
  | start : SoFar list nothing [] nothing
  | comma {ts : List Token} {comma : Token} {a : α} (front : list ts a)
      (isComma : comma.kind = .comma) : SoFar list nothing (ts ++ [comma]) a

/-- Two keywords, the name of a table, and an opening parenthesis. -/
inductive Heading (first second : Keyword) : List Token → Prop
  | intro {start next name opening : Token} (isFirst : start.isKeyword first = true)
      (isSecond : next.isKeyword second = true) (isName : name.kind = .identifier)
      (isOpening : opening.kind = .parenOpen) : Heading first second [start, next, name, opening]

def NamesForm (ts : List Token) (names : List String) : Prop :=
  ListForm NameForm ts names ∧ names.Nodup

def RowsForm (width : Nat) (ts : List Token) (rows : List Row) : Prop :=
  ListForm RowForm ts rows ∧ ∀ row ∈ rows, row.length = width

/-- What can be wrong with a token of a statement, given all those before it. -/
inductive Cause : Charge
  | unexpectedToken {front more : List Token} {expected : Expectation} {t : Token} :
      Cause front (.unexpectedToken expected t) t more
  | unsupportedStatement {t : Token} {more : List Token} (isKeyword : t.kind = .keyword)
      (notCreate : t.isKeyword .create = false) (notInsert : t.isKeyword .insert = false) :
      Cause [] (.unsupportedStatement t.statementWord) t more
  | type {heading us front more : List Token} {name t : Token} {fault : ParseFault}
      {entries : List Column × List Condition} (isHeading : Heading .create .table heading)
      (isFront : SoFar DistinctEntriesForm ([], []) us entries) (isName : name.kind = .identifier)
      (cause : TypeCause front fault t more) :
      Cause (heading ++ us ++ name :: front) fault t more
  | columnTwice {heading us more : List Token} {t : Token}
      {entries : List Column × List Condition} (isHeading : Heading .create .table heading)
      (isFront : SoFar DistinctEntriesForm ([], []) us entries) (isName : t.kind = .identifier)
      (isTaken : t.lexeme ∈ entries.1.map Column.name) :
      Cause (heading ++ us) (.duplicateColumn t.lexeme) t more
  | nameTwice {heading us more : List Token} {t : Token} {names : List String}
      (isHeading : Heading .insert .into heading) (isFront : SoFar NamesForm [] us names)
      (isName : t.kind = .identifier) (isTaken : t.lexeme ∈ names) :
      Cause (heading ++ us) (.duplicateColumn t.lexeme) t more
  | rowWidth {heading us vs ws more : List Token} {closing values t : Token}
      {names : List String} {rows : List Row} {row : Row}
      (isHeading : Heading .insert .into heading) (isNames : NamesForm us names)
      (isClosing : closing.kind = .parenClose) (isValues : values.isKeyword .values = true)
      (isFront : SoFar (RowsForm names.length) [] vs rows) (isRow : RowForm (t :: ws) row)
      (isUnfit : row.length ≠ names.length) :
      Cause (heading ++ us ++ closing :: values :: vs)
        (.columnCountMismatch rows.length names.length row.length) t (ws ++ more)

theorem open_cause : Cause.Open :=
  fun _ _ _ _ => .unexpectedToken

theorem Cause.append {front more : List Token} {fault : ParseFault} {t : Token}
    (h : Cause front fault t more) (back : List Token) : Cause front fault t (more ++ back) := by
  cases h with
  | unexpectedToken => exact .unexpectedToken
  | unsupportedStatement isKeyword notCreate notInsert =>
    exact .unsupportedStatement isKeyword notCreate notInsert
  | type isHeading isFront isName cause =>
    refine .type isHeading isFront isName ?_
    cases cause with
    | unexpectedToken => exact .unexpectedToken
    | sizesNotAllowed isKeyword ofKeyword takesNone isOpening =>
      exact .sizesNotAllowed isKeyword ofKeyword takesNone isOpening
    | invalidSize isKeyword ofKeyword isPlace isNumber noSize =>
      exact .invalidSize isKeyword ofKeyword isPlace isNumber noSize
  | columnTwice isHeading isFront isName isTaken =>
    exact .columnTwice isHeading isFront isName isTaken
  | nameTwice isHeading isFront isName isTaken =>
    exact .nameTwice isHeading isFront isName isTaken
  | rowWidth isHeading isNames isClosing isValues isFront isRow isUnfit =>
    rw [List.append_assoc _ _ back]
    exact .rowWidth isHeading isNames isClosing isValues isFront isRow isUnfit

theorem blames_separated {α : Type} {item : List Token → α → Prop} {good : List α → α → Prop}
    {step : List α → ParseM (List α)} (inv : List α → Prop) (hNil : inv [])
    (hInv : ∀ as a, inv (as ++ [a]) ↔ inv as ∧ good as a)
    (hReads : ∀ as, Reads limit (step as) (AppendedIf item good as) anyToken)
    (h : ∀ us as, SoFar (fun ts as => ListForm item ts as ∧ inv as) [] us as →
      Blames limit (step as) (charge.after us)) : Blames limit (separated step []) charge := by
  refine .bind (hReads []) (h [] [] .start) ?_
  rintro us _ ⟨a, hForm, hGood, rfl⟩
  refine blames_repeatWhile (fun ts as => ListForm item ts as ∧ inv as)
    (looks_check (by decide)) hReads ?_ ?_ ⟨.single hForm, (hInv [] a).mpr ⟨hNil, hGood⟩⟩
  · intro us as comma ts bs hList hComma hItem
    exact listForm_append hInv hList (by simpa using hComma) hItem
  · intro us as comma hAs hComma
    exact h _ as (.comma hAs (by simpa using hComma))

theorem blames_distinctColumn {columns : List Column} (hOpen : charge.Open)
    (hType : ∀ name front fault t more, name.kind = .identifier →
      TypeCause front fault t more → charge (name :: front) fault t more)
    (hTaken : ∀ t more, t.kind = .identifier → t.lexeme ∈ columns.map Column.name →
      charge [] (.duplicateColumn t.lexeme) t more) :
    Blames limit (distinctColumn columns) charge := by
  refine blames_checked reads_column (blames_column hOpen hType) fun i us column hForm => ?_
  by_cases hOld : columns.any (·.name == column.name) = true
  · refine .inl ⟨_, if_pos hOld, fun t more back hAhead => ?_⟩
    obtain ⟨name, vs, ws, type, constraints, rfl, isName, -, -, rfl⟩ := columnForm_iff.mp hForm
    obtain ⟨rfl, -⟩ := List.cons.inj hAhead
    exact hTaken _ _ isName (by simpa using hOld)
  · rw [if_neg hOld]
    exact .inr (blames_pure _)

/-- Two keywords and the name of a table stand before everything else. -/
theorem blames_heading {α : Type} {first second : Keyword} {next : Token → ParseM α}
    (hOpen : charge.Open)
    (hNext : ∀ start other name, start.isKeyword first = true → other.isKeyword second = true →
      name.kind = .identifier → Blames limit (next name) (charge.after [start, other, name])) :
    Blames limit (consumeKeyword first >>= fun _ => consumeKeyword second >>= fun _ =>
      consume .identifier .tableName >>= next) charge := by
  refine .takeKeyword hOpen fun start isFirst => ?_
  refine .takeKeyword (hOpen.after _) fun other isSecond => ?_
  refine .takeToken (by decide) ((hOpen.after _).after _) fun name isName => ?_
  exact hNext start other name isFirst isSecond isName

theorem blames_entries {heading : List Token} (isHeading : Heading .create .table heading) :
    Blames limit (column >>= fun first => repeatWhile (accept .comma) tableEntry ([first], []))
      (Cause.after heading) := by
  have hType : ∀ us entries, SoFar DistinctEntriesForm ([], []) us entries →
      ∀ name front fault t more, name.kind = .identifier → TypeCause front fault t more →
        (Cause.after heading).after us (name :: front) fault t more := by
    intro us entries isFront name front fault t more isName hCause
    have := Cause.type isHeading isFront isName hCause
    rwa [List.append_assoc] at this
  refine .bind reads_column (blames_column (open_cause.after _) (hType [] _ .start)) ?_
  intro us column hForm
  refine blames_repeatWhile DistinctEntriesForm (looks_check (by decide)) reads_tableEntry ?_ ?_
    ⟨.first hForm, by simp⟩
  · intro us entries comma ts all hEntries hComma hEntry
    exact hEntries.append (by simpa using hComma) hEntry
  · intro us entries comma hEntries hComma
    have isFront : SoFar DistinctEntriesForm ([], []) (us ++ [comma]) entries :=
      .comma hEntries (by simpa using hComma)
    have hOpen := (open_cause.after heading).after (us ++ [comma])
    refine blames_stepChoice (looks_checkKeyword .check) (fun t _ => ?_) ?_
    · exact ((plain_parenthesized plain_condition).map fun condition =>
        (entries.1, entries.2 ++ [condition])) _ (hOpen.after _)
    · refine .map (blames_distinctColumn hOpen (hType _ _ isFront) fun t more isName isTaken => ?_)
        hOpen fun columns => (columns, entries.2)
      rw [Charge.after_nil]
      exact .columnTwice isHeading isFront isName isTaken

theorem blames_createTable : Blames limit createTable Cause := by
  refine blames_heading open_cause fun start next name isFirst isSecond isName => ?_
  have hOpen := open_cause.after [start, next, name]
  refine .map (blames_parenthesized hOpen fun opening isOpening => ?_) hOpen _
  exact blames_entries (.intro isFirst isSecond isName isOpening)

theorem blames_names {heading : List Token} (isHeading : Heading .insert .into heading) :
    Blames limit (separated distinctName []) (Cause.after heading) := by
  refine blames_separated List.Nodup List.nodup_nil (fun _ _ => nodup_append_singleton)
    reads_distinctName ?_
  intro us names isFront
  refine blames_checkedToken (by decide) ((open_cause.after heading).after us) fun i t isName => ?_
  by_cases isTaken : t.lexeme ∈ names
  · refine .inl ⟨_, if_pos isTaken, fun more => ?_⟩
    rw [Charge.after_nil]
    exact .nameTwice isHeading isFront isName isTaken
  · rw [if_neg isTaken]
    exact .inr (blames_pure _)

theorem plain_row : Plain limit row :=
  plain_parenthesized (plain_separated (fun values => plain_literal.map (values ++ [·])) [])

theorem rowForm_head {ts : List Token} {row : Row} (h : RowForm ts row) : ∃ t us, ts = t :: us := by
  cases h with
  | intro _ _ _ => exact ⟨_, _, rfl⟩

/-- The rows are read with a charge about the tokens behind the names. -/
theorem blames_rows {width : Nat} (hOpen : charge.Open)
    (hWidth : ∀ vs ws more t rows row, SoFar (RowsForm width) [] vs rows →
      RowForm (t :: ws) row → row.length ≠ width →
      charge vs (.columnCountMismatch rows.length width row.length) t (ws ++ more)) :
    Blames limit (separated (rowOf width) []) charge := by
  refine blames_separated (fun rows => ∀ row ∈ rows, row.length = width) nofun
    (fun rows row => by simp [or_imp, forall_and]) (reads_rowOf width) fun vs rows isFront => ?_
  have hReads : Reads limit row RowForm anyToken := reads_row
  refine blames_checked hReads (plain_row _ (hOpen.after vs)) fun i us row isRow => ?_
  by_cases hFits : row.length = width
  · rw [if_pos hFits]
    exact .inr (blames_pure _)
  · refine .inl ⟨_, if_neg hFits, fun t more back hAhead => ?_⟩
    obtain ⟨u, ws, rfl⟩ := rowForm_head isRow
    obtain ⟨rfl, rfl⟩ := List.cons.inj hAhead
    rw [Charge.after_nil]
    exact hWidth vs ws back u rows row isFront isRow hFits

theorem blames_insertInto : Blames limit insertInto Cause := by
  refine blames_heading open_cause fun start next name isFirst isSecond isName => ?_
  have hOpen := open_cause.after [start, next, name]
  have hReads : Reads limit (parenthesized (separated distinctName [])) _ anyToken :=
    reads_parenthesizedNames
  refine .bind hReads (blames_parenthesized hOpen fun opening isOpening =>
    blames_names (.intro isFirst isSecond isName isOpening)) ?_
  rintro _ names ⟨opening, us, closing, rfl, isOpening, isNames, isClosing⟩
  refine .takeKeyword (hOpen.after _) fun values isValues => ?_
  refine .map (blames_rows ((hOpen.after _).after _) ?_) ((hOpen.after _).after _) _
  intro vs ws more t rows row isFront isRow isUnfit
  have := @Cause.rowWidth _ us vs ws more closing values t names rows row
    (.intro isFirst isSecond isName isOpening) isNames isClosing isValues isFront isRow isUnfit
  simpa [Charge.after] using this

theorem plain_finish (keyword : Keyword) (first : Nat) (statement : Statement) :
    Plain limit (finish keyword first statement) :=
  (plain_stepIf (looks_check (by decide))).bind fun _ => plain_index.bind fun _ =>
    (plain_record _).map fun _ => statement

theorem blames_statement : Blames limit statement Cause := by
  intro parser hReady
  by_cases hKind : parser.current.kind = .keyword
  · cases hCreate : parser.current.isKeyword .create with
    | true =>
      rw [run_statement, if_pos hKind, statementBody, (isKeyword_iff.mp hCreate).2]
      exact blames_createTable.andPlain open_cause (fun _ => plain_finish _ _ _) parser hReady
    | false =>
      cases hInsert : parser.current.isKeyword .insert with
      | true =>
        rw [run_statement, if_pos hKind, statementBody, (isKeyword_iff.mp hInsert).2]
        exact blames_insertInto.andPlain open_cause (fun _ => plain_finish _ _ _) parser hReady
      | false =>
        rw [run_statement_unsupported hKind hCreate hInsert]
        exact .first (.refl parser) fun _ _ => .unsupportedStatement hKind hCreate hInsert
  · rw [run_statement, if_neg hKind]
    exact .first (.refl parser) fun _ _ => .unexpectedToken

/-! ### Errors of calls -/

/-- The error of a statement that begins at `start`, with the parser at `stop` afterwards. -/
structure Explained (tokens : List Token) (start : Nat) (e : ParseError) (stop : Nat) : Prop where
  fromStart : start ≤ e.index
  toStop : e.index ≤ stop
  inRange : e.index < tokens.length
  cause : Cause ((tokens.take e.index).drop start) e.fault tokens[e.index]
    (tokens.drop (e.index + 1))

variable {tokens : List Token} {parser after : Parser} {e : ParseError}

theorem explained_of_passes {ts : List Token} (h : Passes (ofTokens tokens) ts parser)
    (hRun : parser.run statement = (.error e, after)) :
    Explained (withEnd tokens) parser.position e after.position := by
  have hBlamed := blames_statement parser (h.ready (ready_ofTokens tokens))
  rw [hRun] at hBlamed
  cases hBlamed with
  | @error _ _ us front more t passes ahead index reached charged =>
    obtain ⟨back, hTokens⟩ := withEnd_of_passes h
    have hAll : withEnd tokens = ts ++ front ++ t :: (more ++ back) := by
      have : parser.rest ++ parser.stop :: back = parser.rest ++ [parser.stop] ++ back := by simp
      rw [hTokens, this, ahead]
      simp
    have hIndex : e.index = (ts ++ front).length := by
      rw [index, position_of_passes h, List.length_append]
    have hLength : e.index < (withEnd tokens).length := by
      rw [hAll, hIndex]
      simp
    have hTake : (withEnd tokens).take e.index = ts ++ front := by
      rw [hAll, hIndex, List.take_left]
    have hToken : (withEnd tokens)[e.index] = t := List.getElem_of_append hAll hIndex.symm
    have hDrop : (withEnd tokens).drop (e.index + 1) = more ++ back := by
      rw [hAll, hIndex, List.drop_length_add_append, List.drop_one, List.tail_cons]
    refine ⟨?_, ?_, hLength, ?_⟩
    · omega
    · rw [index, passes.position]
      omega
    · rw [hTake, hToken, hDrop, position_of_passes h, List.drop_left]
      exact charged.append back

theorem exists_run_skipTerminators (parser : Parser) :
    ∃ after, parser.run skipTerminators = (.ok (), after) := by
  have hBounded : ∀ bound (parser : Parser), ∃ after,
      parser.run (iterate (accept .terminator) (fun _ => pure ()) bound ()) = (.ok (), after) := by
    intro bound
    induction bound with
    | zero => exact fun parser => ⟨parser, rfl⟩
    | succ bound ih =>
      intro parser
      rw [run_iterate_succ, run_bind_ok parser (run_accept parser .terminator)]
      split
      · exact ih _
      · exact ⟨_, rfl⟩
  exact hBounded _ parser

/-- A script fails only with the error of one of its statements. -/
theorem exists_statement_of_run_script {limit : Nat} (hReady : Ready limit parser)
    (hRun : parser.run script = (.error e, after)) :
    ∃ us middle, Passes parser us middle ∧ middle.run statement = (.error e, after) := by
  have hBounded : ∀ bound (parser : Parser) (read : Script), Ready limit parser →
      parser.run (iterate anotherStatement
        (fun statements => return statements ++ [← statement]) bound read) = (.error e, after) →
      ∃ us middle, Passes parser us middle ∧ middle.run statement = (.error e, after) := by
    intro bound
    induction bound with
    | zero => exact fun parser read _ hRun => nomatch hRun
    | succ bound ih =>
      intro parser read hReady hRun
      obtain ⟨led, hSkip⟩ := exists_run_skipTerminators parser
      have hMore : parser.run anotherStatement = (.ok (!led.atEnd), led) := by
        rw [anotherStatement, run_bind_ok parser hSkip]
        rfl
      obtain ⟨gap, hGap, -⟩ := passes_skipTerminators hReady hSkip
      rw [run_iterate_succ, run_bind_ok parser hMore] at hRun
      cases hEnd : led.atEnd with
      | true =>
        rw [hEnd] at hRun
        cases hRun
      | false =>
        rw [hEnd, Bool.not_false, if_pos rfl, bind_assoc] at hRun
        rcases hStatement : led.run statement with ⟨d | s, stepped⟩
        · rw [run_bind_error led hStatement] at hRun
          cases hRun
          exact ⟨gap, led, hGap, hStatement⟩
        · have hLed := hGap.ready hReady
          obtain ⟨ts, hPasses, -⟩ := (reads_statement led hLed).sound hStatement
          rw [run_bind_ok led hStatement, pure_bind] at hRun
          obtain ⟨us, middle, hMiddle, hFailed⟩ := ih stepped _ (hPasses.ready hLed) hRun
          exact ⟨_, middle, (hGap.trans hPasses).trans hMiddle, hFailed⟩
  exact hBounded _ parser [] hReady hRun

/-- However a parser has been used, the error of a statement points at its cause, and the error of a
script is that of one of its statements. -/
theorem explained_afterCalls (tokens : List Token) (calls : List Call) :
    let parser := (ofTokens tokens).afterCalls calls
    (∀ e after, parser.run statement = (.error e, after) →
      Explained (withEnd tokens) parser.position e after.position) ∧
    ∀ e after, parser.run script = (.error e, after) →
      ∃ us middle, Passes parser us middle ∧ middle.run statement = (.error e, after) ∧
        Explained (withEnd tokens) middle.position e after.position := by
  intro parser
  obtain ⟨ts, hPasses⟩ := passes_afterCalls (ready_ofTokens tokens) calls
  refine ⟨fun e after => explained_of_passes hPasses, fun e after hRun => ?_⟩
  obtain ⟨us, middle, hMiddle, hFailed⟩ :=
    exists_statement_of_run_script (hPasses.ready (ready_ofTokens tokens)) hRun
  exact ⟨us, middle, hMiddle, hFailed, explained_of_passes (hPasses.trans hMiddle) hFailed⟩

/-- A row of two values for one column, after a statement that has been read. -/
theorem explained_afterCalls_row :
    let word := fun (kind : TokenKind) (lexeme : String) => (⟨kind, lexeme, 0⟩ : Token)
    let start := [word .keyword "INSERT", word .keyword "INTO", word .identifier "t",
      word .parenOpen "(", word .identifier "a", word .parenClose ")", word .keyword "VALUES",
      word .parenOpen "(", word .numberLiteral "1"]
    let tokens := start ++ word .parenClose ")" :: start ++
      [word .comma ",", word .numberLiteral "2", word .parenClose ")"]
    let parser := (ofTokens tokens).afterCalls [.statement]
    let e : ParseError := ⟨.columnCountMismatch 0 1 2, 17⟩
    (parser.run statement).1 = .error e ∧ parser.position = 10 ∧
      Explained (withEnd tokens) 10 e (parser.run statement).2.position := by
  intro word start tokens parser e
  have hRun : (parser.run statement).1 = .error e := by decide +kernel
  have hPosition : parser.position = 10 := by decide +kernel
  refine ⟨hRun, hPosition, ?_⟩
  rw [← hPosition]
  exact (explained_afterCalls tokens [.statement]).1 e _ (Prod.ext hRun rfl)

end SqlStore.Parser
