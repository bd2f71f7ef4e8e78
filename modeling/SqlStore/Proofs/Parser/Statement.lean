import SqlStore.Parser.Statement
import SqlStore.Proofs.Parser.Column

/-!
# Reading statements

The readers of statements read the grammar of statements together with its side conditions: a name
that stands twice and a row of the wrong width are refused while the list is read, so what has been
read is regular. `ofTokens_eq_ok_iff` says that the statements that are accepted are those that the
grammar derives.
-/
namespace SqlStore.Parser
open Grammar
set_option autoImplicit false

variable {limit : Nat} {follow : Token → Prop}

/-! ### Lists -/

section

variable {α : Type} {item : List Token → α → Prop} {good : List α → α → Prop}

/-- One more item, if it fits to those that have been read. -/
def AppendedIf (item : List Token → α → Prop) (good : List α → α → Prop) (read : List α)
    (ts : List Token) (all : List α) : Prop :=
  ∃ a, item ts a ∧ good read a ∧ all = read ++ [a]

/-- A list that keeps an invariant, with one more item that fits. -/
theorem listForm_append {inv : List α → Prop}
    (hInv : ∀ as a, inv (as ++ [a]) ↔ inv as ∧ good as a) {ts us : List Token} {comma : Token}
    {as bs : List α} (h : ListForm item ts as ∧ inv as) (hComma : comma.kind = .comma)
    (hItem : AppendedIf item good as us bs) : ListForm item (ts ++ comma :: us) bs ∧ inv bs := by
  obtain ⟨b, hForm, hGood, rfl⟩ := hItem
  exact ⟨.append h.1 hComma hForm, (hInv as b).mpr ⟨h.2, hGood⟩⟩

theorem separated_iff {inv : List α → Prop} (hNil : inv [])
    (hInv : ∀ as a, inv (as ++ [a]) ↔ inv as ∧ good as a) {ts : List Token} {as : List α} :
    Seq (AppendedIf item good []) (Rounds fun read =>
      Led (·.kind == .comma) fun _ => AppendedIf item good read) ts as ↔
      ListForm item ts as ∧ inv as := by
  constructor
  · rintro ⟨us, vs, _, rfl, ⟨a, hForm, hGood, rfl⟩, hRounds⟩
    refine Rounds.fold (fun ts as => ListForm item ts as ∧ inv as) ?_
      ⟨.single hForm, (hInv [] a).mpr ⟨hNil, hGood⟩⟩ hRounds
    rintro ts _ as bs hList ⟨comma, us, rfl, hComma, hItem⟩
    exact listForm_append hInv hList (by simpa using hComma) hItem
  · rintro ⟨h, hAs⟩
    induction h with
    | @single ts a form =>
      have hGood := ((hInv [] a).mp hAs).2
      exact ⟨ts, [], [a], by simp, ⟨a, form, hGood, rfl⟩, .nil⟩
    | @append ts us comma as a front isComma form ih =>
      obtain ⟨hFront, hGood⟩ := (hInv as a).mp hAs
      obtain ⟨vs, ws, first, rfl, hFirst, hRounds⟩ := ih hFront
      refine ⟨vs, _, first, List.append_assoc .., hFirst, hRounds.snoc ?_⟩
      exact ⟨comma, us, rfl, by simp [isComma], a, form, hGood, rfl⟩

theorem reads_separated (inv : List α → Prop) {step : List α → ParseM (List α)}
    (hStep : ∀ as, Reads limit (step as) (AppendedIf item good as) follow)
    (hFollow : ∀ t, t.kind = .comma → follow t) (hNil : inv [])
    (hInv : ∀ as a, inv (as ++ [a]) ↔ inv as ∧ good as a) :
    Reads limit (separated step []) (fun ts as => ListForm item ts as ∧ inv as)
      (fun t => follow t ∧ t.kind ≠ .comma) := by
  have hLoop := loopReads_stepIf (looks_check (by decide : TokenKind.comma ≠ .endOfInput)) hStep
    (fun t h => hFollow t (by simpa using h))
  have hAll := hLoop.after (fun read => read) (hStep [])
  refine (hAll.congr fun ts as => separated_iff hNil hInv).weaken fun t h => ?_
  exact ⟨h.1, by simpa using h.2⟩

end

/-! ### Tables -/

theorem reads_distinctColumn (columns : List Column) :
    Reads limit (distinctColumn columns)
      (AppendedIf ColumnForm (fun read column => column.name ∉ read.map Column.name) columns)
      EndsColumn := by
  refine reads_index_bind fun i => reads_column.filter _ (fun column hNew => if_neg ?_)
    fun column hOld => ⟨_, _, if_pos ?_⟩
  · simpa using hNew
  · simpa using hOld

/-- What may stand after a comma in a list of entries. -/
def EntryForm (entries : List Column × List Condition) (ts : List Token)
    (all : List Column × List Condition) : Prop :=
  (∃ condition, CheckForm ts condition ∧ all = (entries.1, entries.2 ++ [condition])) ∨
    ∃ columns, AppendedIf ColumnForm (fun read column => column.name ∉ read.map Column.name)
      entries.1 ts columns ∧ all = (columns, entries.2)

theorem columnForm_head {ts : List Token} {column : Column} (h : ColumnForm ts column) (t : Token) :
    (ts.headD t).kind = .identifier := by
  obtain ⟨name, us, vs, type, constraints, rfl, isName, -⟩ := columnForm_iff.mp h
  exact isName

theorem reads_tableEntry (entries : List Column × List Condition) :
    Reads limit (tableEntry entries) (EntryForm entries) EndsColumn := by
  have hChoice : Reads limit (tableEntry entries) _ EndsColumn :=
    reads_stepChoice (looks_checkKeyword .check)
      (reads_parenthesizedCondition.map fun condition => (entries.1, entries.2 ++ [condition]))
      ((reads_distinctColumn entries.1).map fun columns => (columns, entries.2)) (by
        rintro ts _ t ⟨_, ⟨column, hForm, -⟩, -⟩ _
        rw [Token.isKeyword, columnForm_head hForm]
        rfl)
  refine hChoice.congr fun ts all => or_congr_left ?_
  constructor
  · rintro ⟨t, us, rfl, isCheck, condition, hForm, rfl⟩
    exact ⟨condition, checkForm_iff.mpr ⟨t, us, rfl, isCheck, hForm⟩, rfl⟩
  · rintro ⟨condition, hForm, rfl⟩
    obtain ⟨t, us, rfl, isCheck, hForm⟩ := checkForm_iff.mp hForm
    exact ⟨t, us, rfl, isCheck, condition, hForm, rfl⟩

theorem nodup_append_singleton {α : Type} {as : List α} {a : α} :
    (as ++ [a]).Nodup ↔ as.Nodup ∧ a ∉ as := by
  rw [List.nodup_append]
  constructor
  · rintro ⟨hAs, -, hNew⟩
    exact ⟨hAs, fun ha => hNew a ha a (by simp) rfl⟩
  · rintro ⟨hAs, hNew⟩
    refine ⟨hAs, by simp, ?_⟩
    rintro b hb c hc rfl
    rw [List.mem_singleton.mp hc] at hb
    exact hNew hb

/-- The entries of a table that names no column twice. -/
def DistinctEntriesForm (ts : List Token) (entries : List Column × List Condition) : Prop :=
  EntriesForm ts entries.1 entries.2 ∧ (entries.1.map Column.name).Nodup

theorem DistinctEntriesForm.append {ts us : List Token} {comma : Token}
    {entries all : List Column × List Condition} (h : DistinctEntriesForm ts entries)
    (hComma : comma.kind = .comma) (hEntry : EntryForm entries us all) :
    DistinctEntriesForm (ts ++ comma :: us) all := by
  rcases hEntry with ⟨condition, hForm, rfl⟩ | ⟨_, ⟨column, hForm, hNew, rfl⟩, rfl⟩
  · exact ⟨.check h.1 hComma hForm, h.2⟩
  · refine ⟨.column h.1 hComma hForm, ?_⟩
    rw [List.map_append]
    exact nodup_append_singleton.mpr ⟨h.2, hNew⟩

theorem distinctEntriesForm_iff {ts : List Token} {entries : List Column × List Condition} :
    Seq ColumnForm (fun first => Rounds (fun entries => Led (·.kind == .comma) fun _ =>
      EntryForm entries) ([first], [])) ts entries ↔ DistinctEntriesForm ts entries := by
  constructor
  · rintro ⟨us, vs, column, rfl, hForm, hRounds⟩
    refine Rounds.fold DistinctEntriesForm ?_ ⟨.first hForm, by simp⟩ hRounds
    rintro ts _ entries all hEntries ⟨comma, us, rfl, hComma, hEntry⟩
    exact hEntries.append (by simpa using hComma) hEntry
  · obtain ⟨columns, checks⟩ := entries
    rintro ⟨h, hDistinct⟩
    dsimp only at h hDistinct
    induction h with
    | @first ts column form => exact ⟨ts, [], column, by simp, form, .nil⟩
    | @column ts us comma columns checks column entries isComma form ih =>
      rw [List.map_append] at hDistinct
      obtain ⟨hColumns, hNew⟩ := nodup_append_singleton.mp hDistinct
      obtain ⟨vs, ws, first, rfl, hFirst, hRounds⟩ := ih hColumns
      refine ⟨vs, _, first, List.append_assoc .., hFirst, hRounds.snoc ?_⟩
      exact ⟨comma, us, rfl, by simp [isComma], .inr ⟨_, ⟨column, form, hNew, rfl⟩, rfl⟩⟩
    | @check ts us comma columns checks condition entries isComma form ih =>
      obtain ⟨vs, ws, first, rfl, hFirst, hRounds⟩ := ih hDistinct
      refine ⟨vs, _, first, List.append_assoc .., hFirst, hRounds.snoc ?_⟩
      exact ⟨comma, us, rfl, by simp [isComma], .inl ⟨condition, form, rfl⟩⟩

theorem reads_innerEntries :
    Reads limit
      (do
        let first ← column
        repeatWhile (accept .comma) tableEntry ([first], []))
      DistinctEntriesForm (fun t => EndsColumn t ∧ (t.kind == .comma) = false) := by
  have hLoop : LoopReads limit (accept .comma) tableEntry _ _ EndsColumn :=
    loopReads_stepIf (looks_check (by decide)) reads_tableEntry fun t h => by
      simp_all [EndsColumn]
  exact (hLoop.after (fun first => ([first], [])) reads_column).congr fun ts entries =>
    distinctEntriesForm_iff

theorem reads_entries :
    Reads limit (parenthesized do
        let first ← column
        repeatWhile (accept .comma) tableEntry ([first], []))
      (Parenthesized DistinctEntriesForm) follow := by
  refine (reads_parenthesized reads_innerEntries fun t h => ?_).mono (Nat.le_succ limit)
  simp [EndsColumn, h]

/-- A written form of a CREATE TABLE that names no column twice. -/
def CreateTableForm (ts : List Token) (statement : CreateTable) : Prop :=
  BodyForm ts (.createTable statement) ∧ statement.Regular

theorem reads_createTable : Reads limit createTable CreateTableForm follow := by
  have hAll : Reads limit createTable _ follow :=
    (reads_consumeKeyword .create).andThen fun _ =>
      (reads_consumeKeyword .table).andThen fun _ =>
        (reads_consume .identifier .tableName (by decide)).andThen fun name =>
          reads_entries.map fun entries => (⟨name.lexeme, entries.1, entries.2⟩ : CreateTable)
  refine hAll.congr fun ts statement => ?_
  constructor
  · rintro ⟨_, _, _, rfl, ⟨create, rfl, isCreate⟩, _, _, _, rfl, ⟨table, rfl, isTable⟩, _, _, name,
      rfl, ⟨rfl, isName⟩, entries, ⟨opening, us, closing, rfl, isOpening, hEntries, isClosing⟩, rfl⟩
    exact ⟨.createTable isCreate isTable isName isOpening hEntries.1 isClosing, hEntries.2⟩
  · rintro ⟨hBody, hRegular⟩
    cases hBody with
    | @createTable create table name opening closing us columns checks isCreate isTable isName
        isOpening entries isClosing =>
      exact ⟨[create], _, (), rfl, ⟨create, rfl, isCreate⟩, [table], _, (), rfl,
        ⟨table, rfl, isTable⟩, [name], _, name, rfl, ⟨rfl, isName⟩, (columns, checks),
        ⟨opening, us, closing, rfl, isOpening, ⟨entries, hRegular⟩, isClosing⟩, rfl⟩

/-! ### Rows -/

theorem reads_distinctName (names : List String) :
    Reads limit (distinctName names)
      (AppendedIf NameForm (fun read name => name ∉ read) names) follow := by
  have hName : Reads limit (distinctName names) _ follow :=
    reads_index_bind fun i => (reads_consume .identifier .columnName (by decide)).filter
      (fun name => name.lexeme ∉ names) (fun name hNew => if_neg hNew)
      fun name hOld => ⟨_, _, if_pos (Decidable.not_not.mp hOld)⟩
  refine hName.congr fun ts all => ?_
  constructor
  · rintro ⟨name, ⟨rfl, isName⟩, hNew, rfl⟩
    exact ⟨name.lexeme, ⟨isName⟩, hNew, rfl⟩
  · rintro ⟨_, ⟨isName⟩, hNew, rfl⟩
    exact ⟨_, ⟨rfl, isName⟩, hNew, rfl⟩

theorem reads_names :
    Reads limit (separated distinctName [])
      (fun ts names => ListForm NameForm ts names ∧ names.Nodup) (fun t => t.kind ≠ .comma) := by
  have hAll : Reads limit (separated distinctName []) _ (fun t => anyToken t ∧ t.kind ≠ .comma) :=
    reads_separated List.Nodup reads_distinctName (fun _ _ => trivial) List.nodup_nil
      fun _ _ => nodup_append_singleton
  exact hAll.weaken fun t h => ⟨trivial, h⟩

theorem reads_parenthesizedNames :
    Reads limit (parenthesized (separated distinctName []))
      (Parenthesized fun ts names => ListForm NameForm ts names ∧ names.Nodup) follow :=
  (reads_parenthesized reads_names fun t h => by simp [h]).mono (Nat.le_succ limit)

theorem reads_appendedLiteral (values : Row) :
    Reads limit (literal >>= fun value => pure (values ++ [value]))
      (AppendedIf LiteralForm (fun _ _ => True) values) follow := by
  refine (reads_literal.map (values ++ [·])).congr fun ts all => ?_
  simp [AppendedIf]

theorem reads_values :
    Reads limit (separated (fun values => literal >>= fun value => pure (values ++ [value])) [])
      (ListForm LiteralForm) (fun t => t.kind ≠ .comma) := by
  have hStep : ∀ values, Reads limit _ _ anyToken := reads_appendedLiteral
  have hValues := reads_separated (fun _ => True) hStep (fun _ _ => trivial) trivial
    fun _ _ => by simp
  exact (hValues.congr fun _ _ => and_iff_left trivial).weaken fun _ h => ⟨trivial, h⟩

theorem reads_row : Reads limit row RowForm follow := by
  have hAll : Reads (limit + 1) row _ follow := reads_parenthesized reads_values fun t h => by
    simp [h]
  refine (hAll.congr fun ts values => ?_).mono (Nat.le_succ limit)
  constructor
  · rintro ⟨opening, us, closing, rfl, isOpening, hValues, isClosing⟩
    exact .intro isOpening hValues isClosing
  · rintro ⟨isOpening, hValues, isClosing⟩
    exact ⟨_, _, _, rfl, isOpening, hValues, isClosing⟩

theorem reads_rowOf (width : Nat) (rows : List Row) :
    Reads limit (rowOf width rows) (AppendedIf RowForm (fun _ row => row.length = width) rows)
      follow :=
  reads_index_bind fun _ => reads_row.filter _ (fun _ hWidth => if_pos hWidth)
    fun _ hWidth => ⟨_, _, if_neg hWidth⟩

theorem reads_rows (width : Nat) :
    Reads limit (separated (rowOf width) [])
      (fun ts rows => ListForm RowForm ts rows ∧ ∀ row ∈ rows, row.length = width)
      (fun t => t.kind ≠ .comma) := by
  have hAll : Reads limit (separated (rowOf width) []) _
      (fun t => anyToken t ∧ t.kind ≠ .comma) :=
    reads_separated (fun rows => ∀ row ∈ rows, row.length = width) (reads_rowOf width)
      (fun _ _ => trivial) (by simp) fun rows row => by simp [or_imp, forall_and]
  exact hAll.weaken fun t h => ⟨trivial, h⟩

/-- A written form of an INSERT with distinct names and rows of one width. -/
def InsertIntoForm (ts : List Token) (statement : InsertInto) : Prop :=
  BodyForm ts (.insertInto statement) ∧ statement.Regular

theorem reads_insertInto :
    Reads limit insertInto InsertIntoForm (fun t => t.kind ≠ .comma) := by
  have hAll : Reads limit insertInto _ (fun t => t.kind ≠ .comma) :=
    (reads_consumeKeyword .insert).andThen fun _ =>
      (reads_consumeKeyword .into).andThen fun _ =>
        (reads_consume .identifier .tableName (by decide)).andThen fun name =>
          reads_parenthesizedNames.andThen fun columns =>
            (reads_consumeKeyword .values).andThen fun _ =>
              (reads_rows columns.length).map fun rows => (⟨name.lexeme, columns, rows⟩ : InsertInto)
  refine hAll.congr fun ts statement => ?_
  constructor
  · rintro ⟨_, _, _, rfl, ⟨insert, rfl, isInsert⟩, _, _, _, rfl, ⟨into, rfl, isInto⟩, _, _, name, rfl,
      ⟨rfl, isName⟩, _, _, columns, rfl,
      ⟨opening, us, closing, rfl, isOpening, ⟨names, hDistinct⟩, isClosing⟩, _, vs, _, rfl,
      ⟨values, rfl, isValues⟩, rows, ⟨rowForms, hWidth⟩, rfl⟩
    refine ⟨?_, hDistinct, hWidth⟩
    have h := BodyForm.insertInto isInsert isInto isName isOpening names isClosing isValues rowForms
    simpa using h
  · rintro ⟨hBody, hDistinct, hWidth⟩
    cases hBody with
    | @insertInto insert into name opening closing values us vs columns rows isInsert isInto isName
        isOpening names isClosing isValues rowForms =>
      refine ⟨[insert], _, (), rfl, ⟨insert, rfl, isInsert⟩, [into], _, (), rfl,
        ⟨into, rfl, isInto⟩, [name], _, name, rfl, ⟨rfl, isName⟩, opening :: us ++ [closing],
        values :: vs, columns, by simp, ⟨opening, us, closing, rfl, isOpening, ⟨names, hDistinct⟩,
        isClosing⟩, [values], vs, (), rfl, ⟨values, rfl, isValues⟩, rows, ⟨rowForms, hWidth⟩, rfl⟩

/-! ### Statements -/

/-- The token after a statement must continue neither its rows nor the statement. -/
def EndsStatement (t : Token) : Prop :=
  t.kind ≠ .comma ∧ t.kind ≠ .terminator

def TerminatorForm (ts : List Token) : Prop :=
  ts = [] ∨ ∃ t, ts = [t] ∧ t.kind = .terminator

theorem reads_accept {kind : TokenKind} (hKind : kind ≠ .endOfInput) :
    Reads limit (accept kind) (fun ts yes =>
      Led (·.kind == kind) (fun _ => Nothing true) ts yes ∨ Nothing false ts yes)
      (fun t => t.kind ≠ kind) := by
  intro parser hReady
  rw [run_accept]
  cases hp : parser.current.kind == kind with
  | true =>
    obtain ⟨us, hRest⟩ := hReady.rest_eq ((looks_check hKind).atEnd _ hp)
    have hYes : Yields (Led (·.kind == kind) fun _ => Nothing true) (fun t => t.kind ≠ kind) parser
        (parser.next.run (pure true)) := (yields_pure true parser.next).led hRest hp
    refine hYes.or_left (misses_of_head (·.kind == kind) false ?_ hp)
    rintro ts yes t ⟨rfl, -⟩ hNext
    simpa using hNext
  | false =>
    exact (yields_pure false parser).or_right
      (misses_of_head (·.kind == kind) true (fun ts yes t hForm _ => led_head hForm t) hp)

theorem reads_finish (keyword : Keyword) (first : Nat) (statement : Statement) :
    Reads limit (finish keyword first statement)
      (fun ts result => TerminatorForm ts ∧ result = statement) EndsStatement := by
  have hRecord : ∀ _ : Bool, Reads limit _ _ EndsStatement := fun _ =>
    reads_index_bind fun i => (reads_record (.statement keyword statement.table first i)).map
      fun _ => statement
  have hAll : Reads limit (finish keyword first statement) _ EndsStatement :=
    (reads_accept (by decide)).bind hRecord (by
      rintro yes ts result t ⟨_, ⟨rfl, -⟩, -⟩ hNext
      exact hNext.2)
  refine hAll.congr fun ts result => ?_
  constructor
  · rintro ⟨_, _, yes, rfl, ⟨t, _, rfl, ht, rfl, -⟩ | ⟨rfl, -⟩, _, ⟨rfl, -⟩, rfl⟩
    · exact ⟨.inr ⟨t, rfl, by simpa using ht⟩, rfl⟩
    · exact ⟨.inl rfl, rfl⟩
  · rintro ⟨rfl | ⟨t, rfl, ht⟩, rfl⟩
    · exact ⟨[], [], false, rfl, .inr ⟨rfl, rfl⟩, (), ⟨rfl, rfl⟩, rfl⟩
    · exact ⟨[t], [], true, rfl, .inl ⟨t, [], rfl, by simp [ht], rfl, rfl⟩, (), ⟨rfl, rfl⟩, rfl⟩

def startKeyword : Statement → Keyword
  | .createTable _ => .create
  | .insertInto _ => .insert

/-- The written forms of the regular statements that begin with a keyword. -/
def StartedForm (keyword : Keyword) (ts : List Token) (statement : Statement) : Prop :=
  startKeyword statement = keyword ∧ StatementForm ts statement ∧ statement.Regular

theorem statementForm_iff {ts : List Token} {statement : Statement} :
    StatementForm ts statement ↔ ∃ us vs, ts = us ++ vs ∧ BodyForm us statement ∧
      TerminatorForm vs := by
  constructor
  · rintro (body | ⟨body, isTerminator⟩)
    · exact ⟨ts, [], by simp, body, .inl rfl⟩
    · exact ⟨_, _, rfl, body, .inr ⟨_, rfl, isTerminator⟩⟩
  · rintro ⟨us, vs, rfl, body, rfl | ⟨t, rfl, isTerminator⟩⟩
    · rw [List.append_nil]
      exact .bare body
    · exact .terminated body isTerminator

/-- A statement shows by its first token what it is. -/
theorem statementForm_head {ts : List Token} {statement : Statement}
    (h : StatementForm ts statement) :
    ∃ t us, ts = t :: us ∧ t.isKeyword (startKeyword statement) = true := by
  obtain ⟨us, vs, rfl, hBody, -⟩ := statementForm_iff.mp h
  cases hBody with
  | createTable isCreate => exact ⟨_, _, rfl, isCreate⟩
  | insertInto isInsert => exact ⟨_, _, rfl, isInsert⟩

theorem reads_started {α : Type} {reader : ParseM α} (keyword : Keyword) (make : α → Statement)
    (hReader : Reads limit reader (fun ts a => BodyForm ts (make a) ∧ (make a).Regular)
      (fun t => t.kind ≠ .comma))
    (hMake : ∀ statement, startKeyword statement = keyword ↔ ∃ a, statement = make a)
    (first : Nat) :
    Reads limit (reader >>= fun a => finish keyword first (make a)) (StartedForm keyword)
      EndsStatement := by
  have hAll := hReader.bind (fun a => reads_finish keyword first (make a)) (by
    rintro a ts result t ⟨rfl | ⟨u, rfl, hu⟩, -⟩ hNext
    · exact hNext.1
    · simp [hu])
  refine hAll.congr fun ts statement => ?_
  constructor
  · rintro ⟨us, vs, a, rfl, ⟨hBody, hRegular⟩, hEnd, rfl⟩
    exact ⟨(hMake _).mpr ⟨a, rfl⟩, statementForm_iff.mpr ⟨us, vs, rfl, hBody, hEnd⟩, hRegular⟩
  · rintro ⟨hKeyword, hForm, hRegular⟩
    obtain ⟨us, vs, rfl, hBody, hEnd⟩ := statementForm_iff.mp hForm
    obtain ⟨a, rfl⟩ := (hMake statement).mp hKeyword
    exact ⟨us, vs, a, rfl, ⟨hBody, hRegular⟩, hEnd, rfl⟩

/-- What `statement` reads, given its first token. -/
def statementBody (token : Token) (first : Nat) : ParseM Statement :=
  match Keyword.ofText? token.lexeme with
  | some .create => createTable >>= fun statement => finish .create first (.createTable statement)
  | some .insert => insertInto >>= fun statement => finish .insert first (.insertInto statement)
  | some keyword => fail (.unsupportedStatement keyword.spelling) first
  | none => fail (.unsupportedStatement token.lexeme) first

theorem run_statement (parser : Parser) :
    parser.run statement =
      if parser.current.kind = .keyword then
        parser.run (statementBody parser.current parser.position)
      else
        (.error ⟨.unexpectedToken .statementKeyword parser.current, parser.position⟩, parser) := by
  rw [statement, run_bind_ok parser (run_index parser), run_bind_ok parser (run_peek parser)]
  split <;> rfl

theorem reads_statementBody (token : Token) (first : Nat) :
    Reads limit (statementBody token first) (fun ts statement =>
      ∃ keyword, Keyword.ofText? token.lexeme = some keyword ∧ StartedForm keyword ts statement)
      EndsStatement := by
  unfold statementBody
  split
  case h_1 hText =>
    refine (reads_started .create .createTable reads_createTable ?_ first).congr fun ts s => ?_
    · intro statement
      cases statement <;> simp [startKeyword]
    · simp [hText]
  case h_2 hText =>
    refine (reads_started .insert .insertInto reads_insertInto ?_ first).congr fun ts s => ?_
    · intro statement
      cases statement <;> simp [startKeyword]
    · simp [hText]
  case h_3 keyword hCreate hInsert hText =>
    refine reads_fail _ _ ?_
    rintro ts statement ⟨k, hk, rfl, -⟩
    cases hText.symm.trans hk
    cases statement
    · exact hCreate rfl
    · exact hInsert rfl
  case h_4 hText =>
    refine reads_fail _ _ ?_
    rintro ts statement ⟨k, hk, -⟩
    cases hText.symm.trans hk

/-- The written forms of regular statements. -/
def RegularForm (ts : List Token) (statement : Statement) : Prop :=
  StatementForm ts statement ∧ statement.Regular

theorem reads_statement : Reads limit statement RegularForm EndsStatement := by
  intro parser hReady
  rw [run_statement]
  split
  · rename_i hKind
    have hBody := reads_statementBody parser.current parser.position parser hReady
    constructor
    · intro statement after hRun
      obtain ⟨ts, hPasses, keyword, -, -, hForm⟩ := hBody.sound hRun
      exact ⟨ts, hPasses, hForm⟩
    · intro ts us statement hRest hForm hNext
      refine hBody.complete hRest ⟨startKeyword statement, ?_, rfl, hForm⟩ hNext
      obtain ⟨t, vs, rfl, hKeyword⟩ := statementForm_head hForm.1
      rw [current_of_rest hRest]
      exact (isKeyword_iff.mp hKeyword).2
  · rename_i hKind
    refine .of_error (misses_of_head (·.kind == .keyword) true ?_ (by simpa using hKind))
    intro ts statement t hForm _
    obtain ⟨u, us, rfl, hKeyword⟩ := statementForm_head hForm.1
    simp [kind_of_isKeyword hKeyword]

/-! ### Whole lists of tokens -/

theorem ready_ofTokens (tokens : List Token) :
    Ready (ofTokens tokens).rest.length (ofTokens tokens) := by
  refine ⟨?_, Nat.le_refl _⟩
  unfold ofTokens
  dsimp only
  cases h : tokens.find? isEnd with
  | none => rfl
  | some t => simpa [isEnd] using List.find?_some h

theorem run_endOfInput (parser : Parser) :
    parser.run endOfInput =
      if parser.rest = [] then (.ok (), parser)
      else
        (.error ⟨.unexpectedToken .endOfInput parser.current, parser.position⟩, parser) := by
  rw [endOfInput, run_bind_ok parser (run_get parser)]
  cases h : parser.rest <;> simp [atEnd, h]

theorem ofTokens_of_form {tokens : List Token} {s : Statement}
    (h : RegularForm (ofTokens tokens).rest s) : Statement.ofTokens tokens = .ok s := by
  have hReady := ready_ofTokens tokens
  have hNext : EndsStatement (ofTokens tokens).stop := by
    simp [EndsStatement, hReady.stop]
  obtain ⟨after, hRun, hPasses⟩ := (reads_statement _ hReady).complete
    (List.append_nil _).symm h hNext
  have hRest : after.rest = [] := by
    simpa using hPasses.rest
  rw [Statement.ofTokens, run_bind_ok _ hRun, run_bind, run_endOfInput, if_pos hRest]
  rfl

theorem form_of_ofTokens {tokens : List Token} {s : Statement}
    (h : Statement.ofTokens tokens = .ok s) : RegularForm (ofTokens tokens).rest s := by
  rw [Statement.ofTokens, run_bind] at h
  split at h
  · rename_i result after hRun
    rw [run_bind, run_endOfInput] at h
    split at h
    · rename_i hEnd
      split at hEnd
      · rename_i hRest
        cases h
        cases hEnd
        obtain ⟨ts, hPasses, hForm⟩ := (reads_statement _ (ready_ofTokens tokens)).sound hRun
        have hAll := hPasses.rest
        rw [hRest, List.append_nil] at hAll
        rwa [hAll]
      · cases hEnd
    · cases h
  · cases h

/-- The tokens before the first end mark, or all of them, must derive the statement, and the
statement must name no column twice and have rows of one width. -/
theorem ofTokens_eq_ok_iff (tokens : List Token) (s : Statement) :
    Statement.ofTokens tokens = .ok s ↔
      StatementForm (tokens.takeWhile fun t => t.kind != .endOfInput) s ∧ s.Regular :=
  ⟨form_of_ofTokens, ofTokens_of_form⟩

end SqlStore.Parser
