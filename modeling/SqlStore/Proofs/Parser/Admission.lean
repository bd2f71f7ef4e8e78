import SqlStore.Proofs.Parser.Locality
import SqlStore.Proofs.Parser.Statement

/-!
# Admitted sentences

The grammar leaves open that names differ and that rows have one width, and the parser refuses a
sentence for these reasons only. So a sentence is either read to its end, or refused for something
other than an unexpected token. Nothing is said here about what is read, and a language is just a
set of lists of tokens.
-/
namespace SqlStore.Parser
open Grammar
set_option autoImplicit false

variable {α β : Type} {limit : Nat} {parser : Parser} {ts : List Token}
  {language other : List Token → Prop} {follow follow' : Token → Prop}

/-- The lists of tokens that are a form of something. -/
def Written (form : List Token → α → Prop) (ts : List Token) : Prop :=
  ∃ a, form ts a

/-- The run passes the tokens, or else it does not blame any of them for being there. -/
inductive Admitted (parser : Parser) (ts : List Token) : Except ParseError α × Parser → Prop
  | ok {a : α} {after : Parser} (passes : Passes parser ts after) :
      Admitted parser ts (.ok a, after)
  | refused {e : ParseError} {after : Parser} (fault : e.fault.isUnexpected = false) :
      Admitted parser ts (.error e, after)

def Admits (limit : Nat) (reader : ParseM α) (language : List Token → Prop)
    (follow : Token → Prop) : Prop :=
  ∀ parser, Ready limit parser → ∀ {ts us}, parser.rest = ts ++ us → language ts →
    follow (us.headD parser.stop) → Admitted parser ts (parser.run reader)

theorem Reads.admits {reader : ParseM α} {form : List Token → α → Prop}
    (h : Reads limit reader form follow) : Admits limit reader (Written form) follow := by
  rintro parser hReady ts us hRest ⟨a, hForm⟩ hNext
  obtain ⟨after, hRun, hPasses⟩ := (h parser hReady).complete hRest hForm hNext
  rw [hRun]
  exact .ok hPasses

theorem Admits.imp {reader : ParseM α} (h : Admits limit reader language follow)
    (hLanguage : ∀ {ts}, other ts → language ts) (hFollow : ∀ {t}, follow' t → follow t) :
    Admits limit reader other follow' :=
  fun parser hReady _ _ hRest hForm hNext =>
    h parser hReady hRest (hLanguage hForm) (hFollow hNext)

/-! ### Combining readers -/

theorem Admitted.moved {middle : Parser} {us : List Token} {result : Except ParseError α × Parser}
    (h : Admitted middle us result) (hPasses : Passes parser ts middle) :
    Admitted parser (ts ++ us) result := by
  cases h with
  | ok passes => exact .ok (hPasses.trans passes)
  | refused fault => exact .refused fault

theorem Admitted.bind {first : ParseM α} {second : α → ParseM β} {us : List Token}
    (h : Admitted parser ts (parser.run first))
    (hSecond : ∀ a middle, Passes parser ts middle → Admitted middle us (middle.run (second a))) :
    Admitted parser (ts ++ us) (parser.run (first >>= second)) := by
  rcases hRun : parser.run first with ⟨e | a, middle⟩ <;> rw [hRun] at h
  · rw [run_bind_error parser hRun]
    cases h with
    | refused fault => exact .refused fault
  · rw [run_bind_ok parser hRun]
    cases h with
    | ok passes => exact (hSecond a middle passes).moved passes

/-- The tokens behind those that have been passed. -/
theorem Passes.rest_eq {after : Parser} {us : List Token} (h : Passes parser ts after)
    (hRest : parser.rest = ts ++ us) : after.rest = us :=
  List.append_cancel_left (h.rest.symm.trans hRest)

def Joint (first second : List Token → Prop) (ts : List Token) : Prop :=
  ∃ us vs, ts = us ++ vs ∧ first us ∧ second vs

theorem Admits.bind {first : ParseM α} {second : α → ParseM β}
    (h : Admits limit first language follow)
    (hSecond : ∀ a, Admits limit (second a) other follow')
    (hFollow : ∀ {ts t}, other ts → follow' t → follow (ts.headD t)) :
    Admits limit (first >>= second) (Joint language other) follow' := by
  rintro parser hReady _ ws hRest ⟨us, vs, rfl, hFirst, hOther⟩ hNext
  rw [List.append_assoc] at hRest
  have hHead : follow ((vs ++ ws).headD parser.stop) := by
    have := hFollow hOther hNext
    cases vs <;> simpa using this
  refine (h parser hReady hRest hFirst hHead).bind fun a middle hPasses => ?_
  exact hSecond a middle (hPasses.ready hReady) (hPasses.rest_eq hRest) hOther
    (by rwa [hPasses.stop])

theorem Admits.andThen {first : ParseM α} {second : α → ParseM β}
    (h : Admits limit first language anyToken)
    (hSecond : ∀ a, Admits limit (second a) other follow) :
    Admits limit (first >>= second) (Joint language other) follow :=
  h.bind hSecond fun _ _ => trivial

/-- What has been read may still be refused, but not for a token. -/
theorem Admits.checked {first : ParseM α} {second : α → ParseM β}
    (h : Admits limit first language follow)
    (hSecond : ∀ a, (∃ fault i, second a = fail fault i ∧ fault.isUnexpected = false) ∨
      ∃ b, second a = pure b) : Admits limit (first >>= second) language follow := by
  intro parser hReady ts us hRest hForm hNext
  have hAll : Admitted parser (ts ++ []) (parser.run (first >>= second)) := by
    refine (h parser hReady hRest hForm hNext).bind fun a middle _ => ?_
    rcases hSecond a with ⟨fault, i, hFail, hFault⟩ | ⟨b, hPure⟩
    · rw [hFail]
      exact .refused hFault
    · rw [hPure]
      exact .ok (.refl middle)
  rwa [List.append_nil] at hAll

theorem Admits.map {reader : ParseM α} (h : Admits limit reader language follow) (f : α → β) :
    Admits limit (reader >>= fun a => pure (f a)) language follow :=
  h.checked fun a => .inr ⟨f a, rfl⟩

theorem admits_index_bind {next : Nat → ParseM α}
    (h : ∀ i, Admits limit (next i) language follow) :
    Admits limit (index >>= next) language follow := by
  intro parser hReady
  rw [run_bind_ok parser (run_index parser)]
  exact h _ parser hReady

theorem admits_consume (kind : TokenKind) (expected : Expectation) (hKind : kind ≠ .endOfInput) :
    Admits limit (consume kind expected) (fun ts => ∃ t, ts = [t] ∧ t.kind = kind) follow :=
  (reads_consume kind expected hKind).admits

theorem admits_consumeKeyword (keyword : Keyword) :
    Admits limit (consumeKeyword keyword) (fun ts => ∃ t, ts = [t] ∧ t.isKeyword keyword = true)
      follow :=
  (reads_consumeKeyword keyword).admits.imp (fun ⟨t, hTokens, hKeyword⟩ => ⟨(), t, hTokens, hKeyword⟩)
    fun h => h

def Enclosed (language : List Token → Prop) (ts : List Token) : Prop :=
  ∃ opening us closing, ts = opening :: us ++ [closing] ∧ opening.kind = .parenOpen ∧ language us ∧
    closing.kind = .parenClose

theorem admits_parenthesized {inner : ParseM α} (h : Admits limit inner language follow)
    (hClose : ∀ {t}, t.kind = .parenClose → follow t) :
    Admits limit (parenthesized inner) (Enclosed language) follow' := by
  have hInner : Admits limit (inner >>= fun a => consume .parenClose .parenClose >>= fun _ => pure a)
      (Joint language fun ts => ∃ t, ts = [t] ∧ t.kind = .parenClose) follow' := by
    refine h.bind (fun a => (admits_consume _ _ (by decide)).map fun _ => a) ?_
    rintro _ t ⟨u, rfl, hKind⟩ _
    exact hClose hKind
  refine ((admits_consume .parenOpen .parenOpen (by decide)).andThen fun _ => hInner).imp ?_
    fun h => h
  rintro _ ⟨opening, us, closing, rfl, isOpening, hUs, isClosing⟩
  exact ⟨[opening], _, rfl, ⟨opening, rfl, isOpening⟩, us, [closing], rfl, hUs, closing, rfl,
    isClosing⟩

theorem admits_stepChoice {test : ParseM Bool} {p : Token → Bool} (hTest : Looks test p)
    {yes no : ParseM α} (hYes : Admits limit yes language follow)
    (hNo : Admits limit no other follow)
    (hNoHead : ∀ {ts} t, other ts → p (ts.headD t) = false) :
    Admits limit (stepIf test >>= fun b => if b then yes else no)
      (fun ts => (∃ t us, ts = t :: us ∧ p t = true ∧ language us) ∨ other ts) follow := by
  intro parser hReady ts us hRest hForm hNext
  rw [run_bind_ok parser (run_stepIf parser (hTest.run parser))]
  rcases hForm with ⟨t, vs, rfl, hp, hVs⟩ | hOther
  · have hFirst := Passes.next hRest
    rw [current_of_rest hRest, hp]
    have hAfter := hYes parser.next (hFirst.ready hReady) (hFirst.rest_eq hRest) hVs
      (by rwa [hFirst.stop])
    exact hAfter.moved hFirst
  · have hCurrent : parser.current = ts.headD (us.headD parser.stop) := by
      rw [current, hRest]
      cases ts <;> rfl
    rw [hCurrent, hNoHead _ hOther]
    exact hNo parser hReady hRest hOther hNext

/-! ### Lists with commas -/

/-- Any number of items, each after a comma. -/
inductive Further (item : List Token → Prop) : List Token → Prop
  | nil : Further item []
  | cons {comma : Token} {ts us : List Token} (isComma : comma.kind = .comma) (first : item ts)
      (rest : Further item us) : Further item (comma :: ts ++ us)

theorem Further.snoc {item : List Token → Prop} {us : List Token} {comma : Token}
    (h : Further item ts) (isComma : comma.kind = .comma) (last : item us) :
    Further item (ts ++ comma :: us) := by
  induction h with
  | nil => simpa using Further.cons isComma last .nil
  | cons isComma' first _ ih =>
    rw [List.append_assoc]
    exact .cons isComma' first ih

theorem admits_repeatWhile_comma {step : α → ParseM α}
    (h : ∀ a, Admits limit (step a) language follow)
    (hComma : ∀ {t}, t.kind = .comma → follow t) (a : α) :
    Admits limit (repeatWhile (accept .comma) step a) (Further language)
      (fun t => follow t ∧ t.kind ≠ .comma) := by
  have hBounded : ∀ {ts}, Further language ts → ∀ (bound : Nat) (a : α) (parser : Parser) us,
      Ready limit parser → parser.rest.length ≤ bound → parser.rest = ts ++ us →
      follow (us.headD parser.stop) ∧ (us.headD parser.stop).kind ≠ .comma →
      Admitted parser ts (parser.run (iterate (accept .comma) step bound a)) := by
    intro ts hFurther
    induction hFurther with
    | nil =>
      intro bound a parser us hReady hBound hRest hNext
      cases bound with
      | zero => exact .ok (.refl parser)
      | succ bound =>
        have hCurrent : parser.current = us.headD parser.stop := by
          rw [current, hRest]
          rfl
        have hStop : (parser.current.kind == .comma) = false := by
          rw [hCurrent]
          exact beq_eq_false_iff_ne.mpr hNext.2
        rw [run_iterate_succ, run_bind_ok parser (run_accept parser .comma), hStop]
        exact .ok (.refl parser)
    | @cons comma ts more isComma first rest ih =>
      intro bound a parser us hReady hBound hRest hNext
      rw [List.cons_append, List.cons_append, List.append_assoc] at hRest
      have hLength := hRest ▸ hBound
      rw [List.length_cons, List.length_append] at hLength
      obtain ⟨bound, rfl⟩ : ∃ n, bound = n + 1 := ⟨bound - 1, by omega⟩
      have hFirst := Passes.next hRest
      have hGo : (parser.current.kind == .comma) = true := by
        rw [current_of_rest hRest, isComma]
        rfl
      rw [run_iterate_succ, run_bind_ok parser (run_accept parser .comma), hGo]
      have hHead : follow ((more ++ us).headD parser.next.stop) := by
        cases rest with
        | nil =>
          rw [hFirst.stop]
          exact hNext.1
        | cons isComma' _ _ => exact hComma isComma'
      have hItem := h a parser.next (hFirst.ready hReady) (hFirst.rest_eq hRest) first hHead
      refine (hItem.bind fun b middle hPasses => ?_).moved hFirst
      have hMiddle := hPasses.rest_eq (hFirst.rest_eq hRest)
      refine ih bound b middle us (hPasses.ready (hFirst.ready hReady)) ?_ hMiddle ?_
      · rw [hMiddle]
        omega
      · rwa [hPasses.stop, hFirst.stop]
  intro parser hReady ts us hRest hForm hNext
  exact hBounded hForm _ a parser us hReady (Nat.le_refl _) hRest hNext

theorem admits_separated {step : α → ParseM α} (h : ∀ a, Admits limit (step a) language follow)
    (hComma : ∀ {t}, t.kind = .comma → follow t) (a : α) :
    Admits limit (separated step a) (Joint language (Further language))
      (fun t => follow t ∧ t.kind ≠ .comma) := by
  refine (h a).bind (admits_repeatWhile_comma h hComma) ?_
  rintro _ t (_ | ⟨isComma, -, -⟩) hNext
  · exact hNext.1
  · exact hComma isComma

theorem joint_of_listForm {item : List Token → α → Prop} {as : List α} (h : ListForm item ts as) :
    Joint (Written item) (Further (Written item)) ts := by
  induction h with
  | single form => exact ⟨_, [], (List.append_nil _).symm, ⟨_, form⟩, .nil⟩
  | append _ isComma form ih =>
    obtain ⟨us, vs, rfl, hFirst, hFurther⟩ := ih
    exact ⟨us, _, List.append_assoc .., hFirst, hFurther.snoc isComma ⟨_, form⟩⟩

/-! ### Tables -/

theorem admits_distinctColumn (columns : List Column) :
    Admits limit (distinctColumn columns) (Written ColumnForm) EndsColumn := by
  refine admits_index_bind fun i => reads_column.admits.checked fun column => ?_
  split
  · exact .inl ⟨_, i, rfl, rfl⟩
  · exact .inr ⟨_, rfl⟩

/-- A column or a condition, in the list of entries of a table. -/
def EntryLanguage (ts : List Token) : Prop :=
  Written CheckForm ts ∨ Written ColumnForm ts

theorem admits_tableEntry (entries : List Column × List Condition) :
    Admits limit (tableEntry entries) EntryLanguage EndsColumn := by
  have hChoice : Admits limit (tableEntry entries) _ EndsColumn :=
    admits_stepChoice (looks_checkKeyword .check) (reads_parenthesizedCondition.admits.map _)
      ((admits_distinctColumn entries.1).map _) (by
        rintro ts t ⟨column, hForm⟩
        rw [Token.isKeyword, columnForm_head hForm]
        rfl)
  refine hChoice.imp ?_ fun h => h
  rintro ts (⟨condition, hForm⟩ | hColumn)
  · obtain ⟨t, us, rfl, isCheck, hForm⟩ := checkForm_iff.mp hForm
    exact .inl ⟨t, us, rfl, isCheck, condition, hForm⟩
  · exact .inr hColumn

theorem joint_of_entriesForm {columns : List Column} {checks : List Condition}
    (h : EntriesForm ts columns checks) : Joint (Written ColumnForm) (Further EntryLanguage) ts := by
  induction h with
  | first form => exact ⟨_, [], (List.append_nil _).symm, ⟨_, form⟩, .nil⟩
  | column _ isComma form ih =>
    obtain ⟨us, vs, rfl, hFirst, hFurther⟩ := ih
    exact ⟨us, _, List.append_assoc .., hFirst, hFurther.snoc isComma (.inr ⟨_, form⟩)⟩
  | check _ isComma form ih =>
    obtain ⟨us, vs, rfl, hFirst, hFurther⟩ := ih
    exact ⟨us, _, List.append_assoc .., hFirst, hFurther.snoc isComma (.inl ⟨_, form⟩)⟩

theorem admits_createTable :
    Admits limit createTable (fun ts => ∃ statement, BodyForm ts (.createTable statement))
      follow := by
  have hEntries : Admits limit (column >>= fun first =>
      repeatWhile (accept .comma) tableEntry ([first], []))
      (Joint (Written ColumnForm) (Further EntryLanguage))
      (fun t => EndsColumn t ∧ t.kind ≠ .comma) := by
    refine reads_column.admits.bind (fun first => admits_repeatWhile_comma admits_tableEntry
      (fun h => by simp [EndsColumn, h]) ([first], [])) ?_
    rintro _ t (_ | ⟨isComma, -, -⟩) hNext
    · exact hNext.1
    · simp [EndsColumn, isComma]
  have hParenthesized : Admits limit (parenthesized _) _ follow :=
    admits_parenthesized hEntries fun h => by simp [EndsColumn, h]
  have hAll : Admits limit createTable _ follow :=
    (admits_consumeKeyword .create).andThen fun _ =>
      (admits_consumeKeyword .table).andThen fun _ =>
        (admits_consume .identifier .tableName (by decide)).andThen fun _ => hParenthesized.map _
  refine hAll.imp ?_ fun h => h
  rintro ts ⟨statement, hBody⟩
  cases hBody with
  | @createTable create table name opening closing us columns checks isCreate isTable isName
      isOpening entries isClosing =>
    exact ⟨[create], _, rfl, ⟨create, rfl, isCreate⟩, [table], _, rfl, ⟨table, rfl, isTable⟩,
      [name], _, rfl, ⟨name, rfl, isName⟩, opening, us, closing, rfl, isOpening,
      joint_of_entriesForm entries, isClosing⟩

/-! ### Rows -/

theorem admits_names :
    Admits limit (parenthesized (separated distinctName []))
      (Enclosed (Written (ListForm NameForm))) follow := by
  have hName : ∀ names, Admits limit (distinctName names) (Written NameForm) anyToken := by
    intro names
    refine admits_index_bind fun i => ?_
    have hToken : Admits limit (consume .identifier .columnName) (Written NameForm) anyToken := by
      refine (admits_consume _ _ (by decide)).imp ?_ fun h => h
      rintro _ ⟨_, ⟨kind⟩⟩
      exact ⟨_, rfl, kind⟩
    refine hToken.checked fun name => ?_
    split
    · exact .inl ⟨_, i, rfl, rfl⟩
    · exact .inr ⟨_, rfl⟩
  have hNames : Admits limit (separated distinctName []) (Written (ListForm NameForm))
      (fun t => t.kind ≠ .comma) :=
    (admits_separated hName (fun _ => trivial) []).imp
      (fun ⟨names, hForm⟩ => joint_of_listForm hForm) fun h => ⟨trivial, h⟩
  exact admits_parenthesized hNames fun h => by simp [h]

theorem admits_rows (width : Nat) :
    Admits limit (separated (rowOf width) []) (Written (ListForm RowForm))
      (fun t => t.kind ≠ .comma) := by
  have hRow : ∀ rows, Admits limit (rowOf width rows) (Written RowForm) anyToken := by
    intro rows
    refine admits_index_bind fun i => reads_row.admits.checked fun row => ?_
    split
    · exact .inr ⟨_, rfl⟩
    · exact .inl ⟨_, i, rfl, rfl⟩
  exact (admits_separated hRow (fun _ => trivial) []).imp
    (fun ⟨rows, hForm⟩ => joint_of_listForm hForm) fun h => ⟨trivial, h⟩

theorem admits_insertInto :
    Admits limit insertInto (fun ts => ∃ statement, BodyForm ts (.insertInto statement))
      (fun t => t.kind ≠ .comma) := by
  have hAll : Admits limit insertInto _ (fun t => t.kind ≠ .comma) :=
    (admits_consumeKeyword .insert).andThen fun _ =>
      (admits_consumeKeyword .into).andThen fun _ =>
        (admits_consume .identifier .tableName (by decide)).andThen fun _ =>
          admits_names.andThen fun columns =>
            (admits_consumeKeyword .values).andThen fun _ => (admits_rows columns.length).map _
  refine hAll.imp ?_ fun h => h
  rintro ts ⟨statement, hBody⟩
  cases hBody with
  | @insertInto insert into name opening closing values us vs columns rows isInsert isInto isName
      isOpening names isClosing isValues rowForms =>
    exact ⟨[insert], _, rfl, ⟨insert, rfl, isInsert⟩, [into], _, rfl, ⟨into, rfl, isInto⟩, [name], _,
      rfl, ⟨name, rfl, isName⟩, opening :: us ++ [closing], values :: vs, by simp,
      ⟨opening, us, closing, rfl, isOpening, ⟨columns, names⟩, isClosing⟩, [values], vs, rfl,
      ⟨values, rfl, isValues⟩, rows, rowForms⟩

/-! ### Statements -/

theorem admits_started {reader : ParseM α} {body : List Token → Prop} (keyword : Keyword)
    (make : α → Statement) (h : Admits limit reader body (fun t => t.kind ≠ .comma)) (first : Nat) :
    Admits limit (reader >>= fun a => finish keyword first (make a)) (Joint body TerminatorForm)
      EndsStatement := by
  refine h.bind (fun a => (reads_finish keyword first (make a)).admits.imp ?_ fun h => h) ?_
  · exact fun hEnd => ⟨make a, hEnd, rfl⟩
  · rintro _ t (rfl | ⟨u, rfl, hu⟩) hNext
    · exact hNext.1
    · simp [hu]

/-- A sentence is read, or refused for something other than one of its tokens. -/
theorem admits_statement : Admits limit statement (Written StatementForm) EndsStatement := by
  rintro parser hReady ts us hRest ⟨s, hForm⟩ hNext
  obtain ⟨t, vs, rfl, hKeyword⟩ := statementForm_head hForm
  have hCurrent : parser.current = t := current_of_rest hRest
  obtain ⟨hKind, hText⟩ := isKeyword_iff.mp hKeyword
  obtain ⟨body, terminator, hTokens, hBody, hEnd⟩ := statementForm_iff.mp hForm
  rw [run_statement, hCurrent, if_pos hKind, statementBody, hText]
  rw [hTokens] at hRest ⊢
  cases s with
  | createTable s =>
    exact admits_started .create .createTable admits_createTable _ parser hReady hRest
      ⟨body, terminator, rfl, ⟨s, hBody⟩, hEnd⟩ hNext
  | insertInto s =>
    exact admits_started .insert .insertInto admits_insertInto _ parser hReady hRest
      ⟨body, terminator, rfl, ⟨s, hBody⟩, hEnd⟩ hNext

end SqlStore.Parser
