import SqlStore.Proofs.Parser.Composition
import SqlStore.Proofs.Parser.Lookahead

/-!
# Coming to a column

A statement is read by readers inside readers. Where the innermost of them begins, the run of the
whole is the run of that one with something behind it: so an error in a later column, or in the type
of a column, is the error of the statement, and a type that has been read stays in every statement
that comes of it.
-/
namespace SqlStore.Parser
open Grammar
set_option autoImplicit false

variable {α β γ : Type} {limit : Nat} {p m : Parser}

theorem exists_of_run_bind {first : ParseM α} {second : α → ParseM β} {b : β} {after : Parser}
    (hRun : p.run (first >>= second) = (.ok b, after)) :
    ∃ a middle, p.run first = (.ok a, middle) ∧ middle.run (second a) = (.ok b, after) := by
  rw [run_bind] at hRun
  split at hRun
  · rename_i a middle hFirst
    exact ⟨a, middle, hFirst, hRun⟩
  · cases hRun

/-- From the second parser on, the run is one of the inner reader with something behind it. What that
makes of the result of the inner reader fits it, wherever it is made. -/
def ComesTo (reader : ParseM α) (p : Parser) (inner : ParseM β) (m : Parser)
    (fits : β → α → Prop) : Prop :=
  ∃ next : β → ParseM α, p.run reader = m.run (inner >>= next) ∧
    ∀ (b : β) (q after : Parser) (a : α), q.run (next b) = (.ok a, after) → fits b a

section

variable {reader : ParseM α} {inner : ParseM γ} {fits : γ → α → Prop}

theorem ComesTo.error (h : ComesTo reader p inner m fits) {e : ParseError} {after : Parser}
    (hRun : m.run inner = (.error e, after)) : p.run reader = (.error e, after) := by
  obtain ⟨next, hReader, -⟩ := h
  rw [hReader, run_bind_error m hRun]

theorem ComesTo.ok (h : ComesTo reader p inner m fits) {c : γ} {a : α} {middle after : Parser}
    (hInner : m.run inner = (.ok c, middle)) (hRun : p.run reader = (.ok a, after)) :
    fits c a := by
  obtain ⟨next, hReader, hNext⟩ := h
  rw [hReader, run_bind_ok m hInner] at hRun
  exact hNext c middle after a hRun

theorem comesTo_self (inner : ParseM γ) (p : Parser) : ComesTo inner p inner p Eq := by
  refine ⟨pure, by rw [bind_pure], ?_⟩
  rintro c q after a hRun
  cases hRun
  rfl

theorem ComesTo.of_run {other : ParseM α} {q : Parser} (hRun : p.run other = q.run reader)
    (h : ComesTo reader q inner m fits) : ComesTo other p inner m fits := by
  obtain ⟨next, hReader, hNext⟩ := h
  exact ⟨next, hRun.trans hReader, hNext⟩

theorem ComesTo.imp (h : ComesTo reader p inner m fits) {fits' : γ → α → Prop}
    (hFits : ∀ (c : γ) (a : α), fits c a → fits' c a) : ComesTo reader p inner m fits' := by
  obtain ⟨next, hReader, hNext⟩ := h
  exact ⟨next, hReader, fun c q after a hRun => hFits c a (hNext c q after a hRun)⟩

/-- The inner reader begins in the first of two. -/
theorem ComesTo.bind (h : ComesTo reader p inner m fits) {second : α → ParseM β}
    {fits' : γ → β → Prop} (hFits : ∀ (c : γ) (a : α) (b : β) (q after : Parser), fits c a →
      q.run (second a) = (.ok b, after) → fits' c b) :
    ComesTo (reader >>= second) p inner m fits' := by
  obtain ⟨next, hReader, hNext⟩ := h
  refine ⟨fun c => next c >>= second, ?_, fun c q after b hRun => ?_⟩
  · rw [← bind_assoc, run_bind, hReader, ← run_bind]
  · obtain ⟨a, middle, hFirst, hSecond⟩ := exists_of_run_bind hRun
    exact hFits c a b middle after (hNext c q middle a hFirst) hSecond

/-- Another reader begins in the inner one. -/
theorem ComesTo.trans (h : ComesTo reader p inner m fits) {innermost : ParseM β} {m' : Parser}
    {fits' : β → γ → Prop} (hInner : ComesTo inner m innermost m' fits') :
    ComesTo reader p innermost m' fun b a => ∃ c, fits' b c ∧ fits c a := by
  obtain ⟨next, hReader, hNext⟩ := h
  refine .of_run hReader (hInner.bind fun b c a q after hFits hRun => ?_)
  exact ⟨c, hFits, hNext c q after a hRun⟩

/-- The inner reader begins after the first of two. -/
theorem ComesTo.past {first : ParseM β} {second : β → ParseM α} {b : β} {middle : Parser}
    (hRun : p.run first = (.ok b, middle)) (h : ComesTo (second b) middle inner m fits) :
    ComesTo (first >>= second) p inner m fits :=
  h.of_run (run_bind_ok p hRun)

theorem ComesTo.pastToken {kind : TokenKind} {expected : Expectation} {next : Token → ParseM α}
    (hKind : p.current.kind = kind) (h : ComesTo (next p.current) p.next inner m fits) :
    ComesTo (consume kind expected >>= next) p inner m fits :=
  h.past (by rw [run_consume, if_pos hKind])

theorem ComesTo.pastKeyword {keyword : Keyword} {next : Unit → ParseM α}
    (isKeyword : p.current.isKeyword keyword = true)
    (h : ComesTo (next ()) p.next inner m fits) :
    ComesTo (consumeKeyword keyword >>= next) p inner m fits :=
  h.past (by rw [run_consumeKeyword, if_pos isKeyword])

end

theorem rest_next {t : Token} {us : List Token} (h : p.rest = t :: us) : p.next.rest = us := by
  rw [next, h]

/-! ### Loops -/

/-- What every step keeps, the loop keeps. -/
theorem keeps_of_run_iterate {more : ParseM Bool} {step : α → ParseM α} {keeps : α → Prop}
    (hStep : ∀ (a b : α) (q after : Parser), keeps a → q.run (step a) = (.ok b, after) → keeps b)
    {bound : Nat} {a b : α} {q after : Parser} (ha : keeps a)
    (hRun : q.run (iterate more step bound a) = (.ok b, after)) : keeps b := by
  induction bound generalizing q a with
  | zero =>
    cases hRun
    exact ha
  | succ bound ih =>
    rw [run_iterate_succ] at hRun
    obtain ⟨yes, middle, -, hRound⟩ := exists_of_run_bind hRun
    cases yes with
    | true =>
      obtain ⟨c, stepped, hStepped, hRest⟩ := exists_of_run_bind hRound
      exact ih (hStep a c middle stepped ha hStepped) hRest
    | false =>
      cases hRound
      exact ha

/-- Before the token by which a loop goes on, it has made the rounds that are written. -/
theorem LoopReads.exists_middle {more : ParseM Bool} {step : α → ParseM α} {test : Token → Bool}
    {round : α → List Token → α → Prop} {follow : Token → Prop}
    (h : LoopReads limit more step test round follow) {bound : Nat} {ts us : List Token} {t : Token}
    {a b : α} (hReady : Ready limit p) (hRounds : Rounds round a ts b)
    (hRest : p.rest = ts ++ t :: us) (hBound : ts.length < bound) (hTest : test t = true) :
    ∃ middle left, p.run (iterate more step bound a) = middle.run (iterate more step (left + 1) b) ∧
      Passes p ts middle := by
  induction hRounds generalizing p bound with
  | nil =>
    obtain ⟨left, rfl⟩ := Nat.exists_eq_succ_of_ne_zero (Nat.ne_zero_of_lt hBound)
    exact ⟨p, left, rfl, .refl p⟩
  | @cons a c b ts vs hFirst hRounds ih =>
    obtain ⟨u, ts', rfl, hu⟩ := h.begins hFirst
    rw [List.append_assoc] at hRest
    obtain ⟨led, hMore, hStep⟩ := h.goes p hReady (by rwa [current_of_rest hRest])
    have hInside : follow ((vs ++ t :: us).headD p.stop) := by
      cases hRounds with
      | nil => exact h.goesOn t hTest
      | cons hSecond _ =>
        obtain ⟨v, vs', rfl, hv⟩ := h.begins hSecond
        exact h.goesOn v hv
    obtain ⟨stepped, hRound, hPasses⟩ := (hStep a).complete hRest hFirst hInside
    have hStepped : stepped.rest = vs ++ t :: us := by
      simpa [hRest] using hPasses.rest.symm
    obtain ⟨bound, rfl⟩ := Nat.exists_eq_succ_of_ne_zero (Nat.ne_zero_of_lt hBound)
    have hLeft : vs.length < bound := by
      simp only [List.length_append, List.length_cons] at hBound
      omega
    obtain ⟨middle, left, hRun, hPasses'⟩ := ih (hPasses.ready hReady) hStepped hLeft
    refine ⟨middle, left, ?_, hPasses.trans hPasses'⟩
    rw [run_iterate_succ, run_bind_ok p hMore, if_pos rfl, run_bind_ok led hRound, hRun]

/-! ### Columns -/

variable {name : Token} {us back : List Token} {entries : List Column × List Condition}

/-- The columns that have been read, and then one of this name and type. -/
def HasColumn (columns : List Column) (name : String) (type : DataType) (all : List Column) :
    Prop :=
  ∃ constraints, columns ++ [⟨name, type, constraints⟩] <+: all

theorem comesTo_column (isName : p.current.kind = .identifier) :
    ComesTo column p dataType p.next fun type column =>
      ∃ constraints, column = ⟨p.current.lexeme, type, constraints⟩ := by
  refine .pastToken isName ((comesTo_self dataType p.next).bind ?_)
  rintro type _ column q after rfl hRun
  obtain ⟨constraints, middle, -, hRecord⟩ := exists_of_run_bind hRun
  obtain ⟨_, recorded, -, hPure⟩ := exists_of_run_bind hRecord
  cases hPure
  exact ⟨constraints, rfl⟩

theorem comesTo_distinctColumn (columns : List Column) (isName : p.current.kind = .identifier) :
    ComesTo (distinctColumn columns) p dataType p.next (HasColumn columns p.current.lexeme) := by
  refine .past (run_index p) ((comesTo_column isName).bind ?_)
  rintro type _ all q after ⟨constraints, rfl⟩ hRun
  split at hRun
  · cases hRun
  · cases hRun
    exact ⟨constraints, List.prefix_rfl⟩

theorem comesTo_tableEntry (isName : p.current.kind = .identifier) :
    ComesTo (tableEntry entries) p (distinctColumn entries.1) p fun columns all =>
      all.1 = columns := by
  have noCheck : p.current.isKeyword .check = false := by
    simp [Token.isKeyword, isName]
  have hTest := run_stepIf p (run_checkKeyword p .check)
  rw [noCheck] at hTest
  refine .past hTest ((comesTo_self (distinctColumn entries.1) p).bind ?_)
  rintro columns _ all q after rfl hRun
  cases hRun
  rfl

theorem prefix_of_run_tableEntry {all : List Column × List Condition} {after : Parser}
    (hRun : p.run (tableEntry entries) = (.ok all, after)) : entries.1 <+: all.1 := by
  obtain ⟨yes, middle, -, hEntry⟩ := exists_of_run_bind hRun
  cases yes with
  | true =>
    obtain ⟨check, checked, -, hPure⟩ := exists_of_run_bind hEntry
    cases hPure
    exact List.prefix_rfl
  | false =>
    obtain ⟨columns, read, hColumns, hPure⟩ := exists_of_run_bind hEntry
    cases hPure
    obtain ⟨_, start, hIndex, hColumn⟩ := exists_of_run_bind hColumns
    obtain ⟨column, stepped, -, hChecked⟩ := exists_of_run_bind hColumn
    split at hChecked
    · cases hChecked
    · cases hChecked
      exact List.prefix_append entries.1 [column]

/-- Later entries leave the columns that have been read where they are. -/
theorem prefix_of_run_iterate {more : ParseM Bool} {columns : List Column} {bound : Nat}
    {all : List Column × List Condition} {after : Parser} (h : columns <+: entries.1)
    (hRun : p.run (iterate more tableEntry bound entries) = (.ok all, after)) :
    columns <+: all.1 := by
  refine @keeps_of_run_iterate _ more tableEntry (fun all => columns <+: all.1) ?_ bound entries
    all p after h hRun
  intro entries all q after hPrefix hStep
  exact hPrefix.trans (prefix_of_run_tableEntry hStep)

/-- A column behind a comma is read in one more round. -/
theorem comesTo_round {comma : Token} (hRest : p.rest = comma :: name :: back)
    (isComma : comma.kind = .comma) (isName : name.kind = .identifier) (left : Nat) :
    ComesTo (iterate (accept .comma) tableEntry (left + 1) entries) p (distinctColumn entries.1)
      p.next fun columns all => columns <+: all.1 := by
  have hAccept := run_accept p .comma
  rw [current_of_rest hRest, isComma] at hAccept
  obtain rfl := current_of_rest (rest_next hRest)
  refine .of_run (run_iterate_succ p _ _ left entries) (.past hAccept ?_)
  refine (comesTo_tableEntry isName).bind ?_
  rintro columns entries all q after rfl hIterate
  exact prefix_of_run_iterate List.prefix_rfl hIterate

/-- A column behind a comma after the entries so far. -/
theorem comesTo_laterColumn (hReady : Ready limit p) (isEntries : DistinctEntriesForm us entries)
    {comma : Token} (isComma : comma.kind = .comma) (isName : name.kind = .identifier)
    (hRest : p.rest = us ++ comma :: name :: back) :
    ∃ m, Passes p (us ++ [comma]) m ∧
      ComesTo (column >>= fun first => repeatWhile (accept .comma) tableEntry ([first], [])) p
        (distinctColumn entries.1) m fun columns all => columns <+: all.1 := by
  obtain ⟨vs, ws, first, rfl, hFirst, hRounds⟩ := distinctEntriesForm_iff.mpr isEntries
  rw [List.append_assoc] at hRest
  have hEnds : EndsColumn ((ws ++ comma :: name :: back).headD p.stop) := by
    cases hRounds with
    | nil => simp [EndsColumn, isComma]
    | cons hRound _ =>
      obtain ⟨t, ts', rfl, hKind, -⟩ := hRound
      simp_all [EndsColumn]
  obtain ⟨led, hColumn, hLed⟩ := (reads_column p hReady).complete hRest hFirst hEnds
  have hRestLed : led.rest = ws ++ comma :: name :: back := by
    simpa [hRest] using hLed.rest.symm
  have hLoop : LoopReads limit (accept .comma) tableEntry _ _ EndsColumn :=
    loopReads_stepIf (looks_check (by decide)) reads_tableEntry fun t h => by
      simp_all [EndsColumn]
  have hBound : ws.length < led.rest.length := by
    rw [hRestLed, List.length_append, List.length_cons]
    omega
  obtain ⟨middle, left, hRun, hMiddle⟩ :=
    hLoop.exists_middle (hLed.ready hReady) hRounds hRestLed hBound (by simp [isComma])
  have hRestMiddle : middle.rest = comma :: name :: back := by
    simpa [hRestLed] using hMiddle.rest.symm
  refine ⟨middle.next, ?_, .past hColumn (.of_run hRun ?_)⟩
  · simpa using hLed.trans (hMiddle.trans (.next hRestMiddle))
  · exact comesTo_round hRestMiddle isComma isName left

/-- The column is the first entry, or stands behind a comma after the entries so far. -/
theorem comesTo_entries (hReady : Ready limit p)
    (isFront : SoFar DistinctEntriesForm ([], []) us entries) (isName : name.kind = .identifier)
    (hRest : p.rest = us ++ name :: back) :
    ∃ m, Passes p (us ++ [name]) m ∧
      ComesTo (column >>= fun first => repeatWhile (accept .comma) tableEntry ([first], [])) p
        dataType m fun type all => HasColumn entries.1 name.lexeme type all.1 := by
  cases isFront with
  | start =>
    obtain rfl := current_of_rest hRest
    refine ⟨p.next, .next hRest, (comesTo_column isName).bind ?_⟩
    rintro type _ all q after ⟨constraints, rfl⟩ hRun
    exact ⟨constraints, prefix_of_run_iterate List.prefix_rfl hRun⟩
  | @comma ts comma _ isEntries isComma =>
    rw [List.append_assoc] at hRest
    obtain ⟨m, hPasses, hLater⟩ := comesTo_laterColumn hReady isEntries isComma isName hRest
    have hRestName : m.rest = name :: back := by
      simpa [hRest] using hPasses.rest.symm
    obtain rfl := current_of_rest hRestName
    refine ⟨m.next, hPasses.trans (.next hRestName),
      (hLater.trans (comesTo_distinctColumn entries.1 isName)).imp ?_⟩
    rintro type all ⟨columns, ⟨constraints, hColumn⟩, hPrefix⟩
    exact ⟨constraints, hColumn.trans hPrefix⟩

/-! ### Statements -/

/-- A statement that makes a table with such a column. -/
def StoresColumn (columns : List Column) (name : String) (type : DataType) (s : Statement) : Prop :=
  ∃ table, s = .createTable table ∧ HasColumn columns name type table.columns

/-- What stands before the type of a column in a statement: the columns before it, and its name. -/
inductive BeforeType : List Token → List Column → String → Prop
  | intro {heading us : List Token} {name : Token} {entries : List Column × List Condition}
      (isHeading : Heading .create .table heading)
      (isFront : SoFar DistinctEntriesForm ([], []) us entries) (isName : name.kind = .identifier) :
      BeforeType (heading ++ us ++ [name]) entries.1 name.lexeme

variable {before : List Token} {columns : List Column} {title : String}

theorem isKeyword_of_beforeType (hBefore : BeforeType before columns title)
    (hRest : p.rest = before ++ back) : p.current.isKeyword .create = true := by
  obtain ⟨⟨isCreate, -, -, -⟩, -, -⟩ := hBefore
  rwa [current_of_rest hRest]

section

variable {inner : ParseM γ} {fits : γ → List Column × List Condition → Prop} {heading : List Token}

/-- What begins among the entries of a table begins in the statement. -/
theorem comesTo_createTable (hReady : Ready limit p) (isHeading : Heading .create .table heading)
    (hRest : p.rest = heading ++ back)
    (hEntries : ∀ q, Ready limit q → q.rest = back → ∃ m, Passes q us m ∧
      ComesTo (column >>= fun first => repeatWhile (accept .comma) tableEntry ([first], [])) q
        inner m fits) :
    ∃ m, Passes p (heading ++ us) m ∧
      ComesTo createTable p inner m fun c table => fits c (table.columns, table.checks) := by
  obtain ⟨isCreate, isTable, isTitle, isOpening⟩ := isHeading
  simp only [List.cons_append, List.nil_append] at hRest
  have hRestTable := rest_next hRest
  have hRestTitle := rest_next hRestTable
  have hRestOpening := rest_next hRestTitle
  have hHeading := (Passes.next hRest).trans
    ((Passes.next hRestTable).trans ((Passes.next hRestTitle).trans (.next hRestOpening)))
  obtain ⟨m, hPasses, hComes⟩ := hEntries _ (hHeading.ready hReady) (rest_next hRestOpening)
  refine ⟨m, hHeading.trans hPasses, ?_⟩
  obtain rfl := current_of_rest hRest
  obtain rfl := current_of_rest hRestTable
  obtain rfl := current_of_rest hRestTitle
  obtain rfl := current_of_rest hRestOpening
  refine .pastKeyword isCreate (.pastKeyword isTable (.pastToken isTitle ?_))
  have hParenthesized : ComesTo (parenthesized _) p.next.next.next inner m fits :=
    .pastToken isOpening (hComes.bind fun c all closed q after hFits hClose => by
      obtain ⟨_, _, -, hPure⟩ := exists_of_run_bind hClose
      cases hPure
      exact hFits)
  refine hParenthesized.bind fun c all table q after hFits hPure => ?_
  cases hPure
  exact hFits

theorem comesTo_statement (hReady : Ready limit p) (isHeading : Heading .create .table heading)
    (hRest : p.rest = heading ++ back)
    (hEntries : ∀ q, Ready limit q → q.rest = back → ∃ m, Passes q us m ∧
      ComesTo (column >>= fun first => repeatWhile (accept .comma) tableEntry ([first], [])) q
        inner m fits) :
    ∃ m, Passes p (heading ++ us) m ∧ ComesTo statement p inner m fun c s =>
      ∃ table, s = .createTable table ∧ fits c (table.columns, table.checks) := by
  obtain ⟨m, hPasses, hTable⟩ := comesTo_createTable hReady isHeading hRest hEntries
  have isCreate : p.current.isKeyword .create = true := by
    obtain ⟨isCreate, -, -, -⟩ := isHeading
    rwa [current_of_rest hRest]
  have hBody : p.run statement = p.run (createTable >>= fun table =>
      finish .create p.position (.createTable table)) := by
    rw [run_statement, if_pos (kind_of_isKeyword isCreate), statementBody,
      (isKeyword_iff.mp isCreate).2]
  refine ⟨m, hPasses, .of_run hBody (hTable.bind fun c table s q after hFits hFinish => ?_)⟩
  obtain ⟨_, ended, -, hRecord⟩ := exists_of_run_bind hFinish
  obtain ⟨_, _, -, hRecorded⟩ := exists_of_run_bind hRecord
  obtain ⟨_, _, -, hPure⟩ := exists_of_run_bind hRecorded
  cases hPure
  exact ⟨table, rfl, hFits⟩

end

theorem comesTo_type (hReady : Ready limit p) (hBefore : BeforeType before columns title)
    (hRest : p.rest = before ++ back) :
    ∃ m, Passes p before m ∧
      ComesTo statement p dataType m (StoresColumn columns title) := by
  obtain ⟨isHeading, isFront, isName⟩ := hBefore
  rw [List.append_assoc, List.append_assoc] at hRest
  rw [List.append_assoc]
  exact comesTo_statement hReady isHeading hRest fun q hReady hRest =>
    comesTo_entries hReady isFront isName (by simpa using hRest)

/-! ### Scripts -/

variable {tokens : List Token} {cursor : Nat}

/-- The positions where a script over the tokens has done with all before it: there it goes on to the
next statement, or to a terminator that ends nothing. -/
inductive ScriptReaches (tokens : List Token) : Nat → Prop
  | start : ScriptReaches tokens 0
  | terminator {cursor : Nat} {t : Token} (front : ScriptReaches tokens cursor)
      (found : (withEnd tokens)[cursor]? = some t) (isTerminator : t.kind = .terminator) :
      ScriptReaches tokens (cursor + 1)
  | statement {cursor after : Nat} {s : Statement} (front : ScriptReaches tokens cursor)
      (isRead : statementAt tokens cursor = (.ok s, after)) : ScriptReaches tokens after

/-- The loop has bounds enough for the tokens that are left. -/
structure ScriptLeft (tokens : List Token) (m : Parser) (bound : Nat) (read : Script) : Prop where
  passes : ∃ ts, Passes (ofTokens tokens) ts m
  enough : m.rest.length ≤ bound
  run : (ofTokens tokens).run script = m.run (scriptFrom bound read)

theorem ScriptLeft.ready {bound : Nat} {read : Script} (h : ScriptLeft tokens m bound read) :
    Ready (ofTokens tokens).rest.length m := by
  obtain ⟨ts, hPasses⟩ := h.passes
  exact hPasses.ready (ready_ofTokens tokens)

theorem ScriptLeft.run_statement {bound : Nat} {read : Script} (h : ScriptLeft tokens m bound read)
    (hKind : m.current.kind = .keyword) : ∃ left, bound = left + 1 ∧
      (ofTokens tokens).run script =
        m.run (statement >>= fun s => scriptFrom left (read ++ [s])) := by
  obtain ⟨us, hRest⟩ := h.ready.rest_eq (by simp [hKind])
  have hEnough := h.enough
  rw [hRest, List.length_cons] at hEnough
  refine ⟨bound - 1, by omega, ?_⟩
  have hBound : bound = bound - 1 + 1 := by omega
  rw [h.run, hBound, run_scriptFrom_statement hRest (by simp [hKind])]
  rfl

theorem mem_of_run_scriptFrom {s : Statement} {bound : Nat} {read all : Script} {after : Parser}
    (hs : s ∈ read) (hRun : p.run (scriptFrom bound read) = (.ok all, after)) : s ∈ all := by
  refine @keeps_of_run_iterate _ anotherStatement _ (fun all => s ∈ all) ?_ bound read all p after hs
    hRun
  intro read more q stepped hs hStep
  obtain ⟨last, middle, -, hPure⟩ := exists_of_run_bind hStep
  cases hPure
  exact List.mem_append_left [last] hs

theorem exists_scriptLeft (h : ScriptReaches tokens cursor) :
    ∃ m bound read, m.position = cursor ∧ ScriptLeft tokens m bound read := by
  induction h with
  | start => exact ⟨ofTokens tokens, _, [], rfl, ⟨[], .refl _⟩, Nat.le_refl _, run_script _⟩
  | @terminator cursor t _ found isTerminator ih =>
    obtain ⟨m, bound, read, rfl, hLeft⟩ := ih
    obtain ⟨ts, hPasses⟩ := hLeft.passes
    have hCurrent := (getElem?_position_of_passes hPasses).symm.trans found
    obtain rfl := Option.some_inj.mp hCurrent
    obtain ⟨us, hRest⟩ := hLeft.ready.rest_eq (by simp [isTerminator])
    have hNext := Passes.next hRest
    have hEnough := hLeft.enough
    rw [hRest, List.length_cons] at hEnough
    refine ⟨m.next, bound, read, hNext.position, ⟨_, hPasses.trans hNext⟩, ?_, ?_⟩
    · rw [rest_next hRest]
      omega
    · rw [hLeft.run, run_scriptFrom_terminator hRest isTerminator (by omega)]
  | @statement cursor after s _ isRead ih =>
    obtain ⟨m, bound, read, rfl, hLeft⟩ := ih
    obtain ⟨ts, hPasses⟩ := hLeft.passes
    rw [← statementAt_of_passes hPasses] at isRead
    obtain ⟨hOk, hAfter⟩ := Prod.mk.inj isRead
    have hRun : m.run statement = (.ok s, (m.run statement).2) := Prod.ext hOk rfl
    have hKind : m.current.kind = .keyword := by
      by_contra hKind
      rw [Parser.run_statement, if_neg hKind] at hRun
      cases hRun
    obtain ⟨left, rfl, hScript⟩ := hLeft.run_statement hKind
    obtain ⟨us, hStatement, hForm, -⟩ := (reads_statement m hLeft.ready).sound hRun
    have hLength := length_statementForm hForm
    have hEnough := hLeft.enough
    rw [hStatement.rest, List.length_append] at hEnough
    refine ⟨_, left, read ++ [s], hAfter, ⟨_, hPasses.trans hStatement⟩, by omega, ?_⟩
    rw [hScript, run_bind_ok m hRun]

/-! ### Types at a position -/

/-- What stands for a type at a position of the tokens. -/
def typeAt (tokens : List Token) (index : Nat) : Except ParseError DataType :=
  ((standing tokens index).run dataType).1

/-- An error in the type is that of the whole, and no whole comes of it without the type. -/
structure Decides {α : Type} (type : Except ParseError DataType) (whole : Except ParseError α)
    (stores : DataType → α → Prop) : Prop where
  error : ∀ e : ParseError, type = .error e → whole = .error e
  ok : ∀ (read : DataType) (a : α), type = .ok read → whole = .ok a → stores read a

theorem ComesTo.decides {reader : ParseM α} {stores : DataType → α → Prop}
    (h : ComesTo reader p dataType m stores) :
    Decides (m.run dataType).1 (p.run reader).1 stores where
  error _ hError := congrArg Prod.fst (h.error (Prod.ext hError rfl))
  ok _ _ hRead hWhole := h.ok (Prod.ext hRead rfl) (Prod.ext hWhole rfl)

/-- The type at a position is that of a column in the statement at the cursor. -/
structure InStatement (tokens : List Token) (index cursor : Nat) (columns : List Column)
    (name : String) : Prop where
  call : Decides (typeAt tokens index) (statementAt tokens cursor).1 (StoresColumn columns name)
  single : cursor = 0 →
    Decides (typeAt tokens index) (Statement.ofTokens tokens) (StoresColumn columns name)
  script : ScriptReaches tokens cursor → Decides (typeAt tokens index) (Script.ofTokens tokens)
    fun type statements => ∃ s ∈ statements, StoresColumn columns name type s

/-- The events that have been recorded make no difference to a type. -/
theorem typeAt_of_standing {index : Nat} (hReady : Ready limit m)
    (hStanding : standing tokens index = { m with events := [] }) :
    typeAt tokens index = (m.run dataType).1 := by
  have hLocal : Local limit limit dataType dataType := local_dataType
  obtain ⟨ts, hConfined⟩ := hLocal m hReady
  have hAbreast : Abreast (reach (m.run dataType)) m { m with events := [] } :=
    ⟨rfl, fun _ _ => rfl⟩
  rw [typeAt, hStanding]
  exact (hConfined.same hAbreast ⟨hReady.stop, hReady.rest⟩ (Nat.le_refl _)).1

/-- However the parser has come to the cursor. -/
theorem exists_comesTo_type (hCursor : cursor < (withEnd tokens).length)
    (hStanding : standing tokens cursor = { p with events := [] })
    (hBefore : BeforeType before columns title) (hRest : p.rest = before ++ back) :
    ∃ m, ComesTo statement p dataType m (StoresColumn columns title) ∧
      typeAt tokens (cursor + before.length) = (m.run dataType).1 := by
  have hReady : Ready (standing tokens cursor).rest.length p := by
    have hReady := ready_standing tokens cursor
    rw [hStanding] at hReady ⊢
    exact ⟨hReady.stop, hReady.rest⟩
  obtain ⟨m, hPasses, hComes⟩ := comesTo_type hReady hBefore hRest
  have hMoved : Passes (standing tokens cursor) before m := by
    rw [hStanding]
    exact ⟨hPasses.rest, hPasses.stop, hPasses.position⟩
  have hPosition : m.position = cursor + before.length := hMoved.position
  refine ⟨m, hComes, ?_⟩
  rw [← hPosition]
  exact typeAt_of_standing (hPasses.ready hReady) (standing_moved hCursor hMoved)

theorem inStatement_of_beforeType (hCursor : cursor < (withEnd tokens).length)
    (hBefore : BeforeType before columns title)
    (hRest : (standing tokens cursor).rest = before ++ back) :
    InStatement tokens (cursor + before.length) cursor columns title where
  call := by
    have hStanding : standing tokens cursor = { standing tokens cursor with events := [] } := rfl
    obtain ⟨m, hComes, hType⟩ := exists_comesTo_type hCursor hStanding hBefore hRest
    rw [hType]
    exact hComes.decides
  single := by
    rintro rfl
    have hStanding : standing tokens 0 = { ofTokens tokens with events := [] } :=
      standing_zero tokens
    rw [hStanding] at hRest
    obtain ⟨m, hComes, hType⟩ := exists_comesTo_type hCursor hStanding hBefore hRest
    have hWhole : ComesTo (statement >>= fun s => endOfInput >>= fun _ => pure s)
        (ofTokens tokens) dataType m (StoresColumn columns title) :=
      hComes.bind fun type s whole q after hStores hRun => by
        obtain ⟨_, _, -, hPure⟩ := exists_of_run_bind hRun
        cases hPure
        exact hStores
    rw [hType]
    exact hWhole.decides
  script := by
    intro hReaches
    obtain ⟨p, bound, read, rfl, hLeft⟩ := exists_scriptLeft hReaches
    obtain ⟨ts, hPasses⟩ := hLeft.passes
    have hStanding := standing_of_passes hPasses
    rw [hStanding] at hRest
    obtain ⟨m, hComes, hType⟩ := exists_comesTo_type hCursor hStanding hBefore hRest
    obtain ⟨left, -, hScript⟩ :=
      hLeft.run_statement (kind_of_isKeyword (isKeyword_of_beforeType hBefore hRest))
    have hWhole : ComesTo script (ofTokens tokens) dataType m fun type statements =>
        ∃ s ∈ statements, StoresColumn columns title type s :=
      .of_run hScript (hComes.bind fun type s all q after hStores hRun =>
        ⟨s, mem_of_run_scriptFrom (by simp) hRun, hStores⟩)
    rw [hType]
    exact hWhole.decides

end SqlStore.Parser
