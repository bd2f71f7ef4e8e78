import SqlStore.Proofs.CommandLine.Session

/-!
# What the program prints

The program is the library with a transcript. It ends well exactly if the library runs all the
queries and has all the tables that are to be printed. It prints a line for each insertion that the
library makes and then those tables, as far as it gets, and its report has the words of the error of
the library.
-/
namespace SqlStore.CommandLine
open Database
set_option autoImplicit false

/-! ### Arguments -/

theorem readOptions_dump (options : Options) (table : String) (rest : List String) :
    readOptions options (("--dump=" ++ table) :: rest) =
      readOptions (options.addDump table) rest := by
  have hLetters : ("--dump=" ++ table).toList = dumpLabel ++ table.toList := String.toList_append
  have hPrefix : dumpLabel.isPrefixOf (dumpLabel ++ table.toList) = true :=
    List.isPrefixOf_iff_prefix.mpr (List.prefix_append _ _)
  have hLonger : ∀ argument : String, argument.toList.length < 7 → "--dump=" ++ table ≠ argument := by
    rintro _ hLength rfl
    rw [hLetters, List.length_append] at hLength
    exact absurd hLength (Nat.not_lt.mpr (Nat.le_add_right 7 _))
  rw [readOptions, hLetters, if_pos hPrefix, List.drop_left, String.ofList_toList]
  · exact hLonger "--" (by decide)
  · exact hLonger "--dump" (by decide)

/-- All queries and all names of tables can be given as arguments. -/
theorem ofArguments_dumps_queries (dumps queries : List String) :
    Invocation.ofArguments (dumps.map ("--dump=" ++ ·) ++ "--" :: queries) =
      .session ⟨queries, false, false, false, dumps⟩ := by
  have hQueries : ∀ options : Options, queries.foldl Options.addQuery options =
      { options with queries := options.queries ++ queries } := by
    intro options
    induction queries generalizing options with
    | nil => simp
    | cons query rest ih => simp [ih, Options.addQuery]
  have hDumps : ∀ options : Options,
      readOptions options (dumps.map ("--dump=" ++ ·) ++ "--" :: queries) =
        .ok { options with queries := options.queries ++ queries, dumps := options.dumps ++ dumps } := by
    intro options
    induction dumps generalizing options with
    | nil =>
      rw [List.map_nil, List.nil_append, readOptions, hQueries, List.append_nil]
    | cons table rest ih =>
      rw [List.map_cons, List.cons_append, readOptions_dump, ih]
      simp [Options.addDump]
  rw [Invocation.ofArguments, hDumps]
  rfl

/-! ### Tables -/

def tableLines (table : Table) : List String :=
  " | ".intercalate table.columnNames :: table.rows.map Session.rowLine

/-- The lines of the tables under the names, as far as they exist. -/
def dumpLines (db : Database) (names : List String) : List String :=
  names.flatMap fun name => (db.find? name).elim [] tableLines

namespace Session

variable {session : Session}

theorem run_dump_ok {name : String} {table : Table} (h : session.database.table name = .ok table) :
    session.run (dump name) = (.ok (), session.tell (tableLines table)) := by
  have hRun : session.run (dump name) = session.run
      (say (" | ".intercalate table.columnNames) >>= fun _ =>
        table.rows.forM fun row => say (rowLine row)) := by
    refine (session.run_bind_ok (a := session) rfl).trans ?_
    rw [h]
  rw [hRun, session.run_bind_ok (session.run_say _), run_forM_say, tell_tell]
  rfl

theorem run_dump_error {name : String} {e : StoreError}
    (h : session.database.table name = .error e) :
    session.run (dump name) = (.error ⟨e.message, none⟩, session) := by
  refine (session.run_bind_ok (a := session) rfl).trans ?_
  rw [h]
  rfl

theorem run_dumps_append {front : List String}
    (h : ∀ name ∈ front, ∃ table, session.database.table name = .ok table) (back : List String) :
    session.run ((front ++ back).forM dump) =
      (session.tell (dumpLines session.database front)).run (back.forM dump) := by
  induction front generalizing session with
  | nil =>
    have hNone : dumpLines session.database [] = [] := rfl
    rw [hNone, session.tell_nil, List.nil_append]
  | cons name rest ih =>
    obtain ⟨⟨table, hTable⟩, hRest⟩ := List.forall_mem_cons.mp h
    have hFirst : dumpLines session.database (name :: rest) =
        tableLines table ++ dumpLines session.database rest := by
      rw [dumpLines, List.flatMap_cons, table_eq_ok_iff.mp hTable]
      rfl
    refine (session.run_bind_ok (run_dump_ok hTable)).trans ?_
    have hAfter : (session.tell (tableLines table)).run ((rest ++ back).forM dump) = _ := ih hRest
    refine hAfter.trans ?_
    rw [tell_tell, hFirst]
    rfl

end Session

/-! ### Transcripts -/

/-- The transcript tells what the library does with the queries, and which tables it then has. -/
structure Agrees (queries dumps : List String) (transcript : Transcript) : Prop where
  exitCode : transcript.exitCode = 0 ↔ ∃ db, empty.apply (runAll queries) = (.ok (), db) ∧
    ∀ name ∈ dumps, ∃ table, db.table name = .ok table
  completed : ∀ db, empty.apply (runAll queries) = (.ok (), db) →
    (∀ name ∈ dumps, ∃ table, db.table name = .ok table) →
    transcript = ⟨0, unlines (insertionLines (empty.runDeeds queries) ++ dumpLines db dumps), ""⟩
  /-- The tables before one that is missing are printed. -/
  missing : ∀ db front name back e, empty.apply (runAll queries) = (.ok (), db) →
    dumps = front ++ name :: back → (∀ other ∈ front, ∃ table, db.table other = .ok table) →
    db.table name = .error e →
    transcript = ⟨1, unlines (insertionLines (empty.runDeeds queries) ++ dumpLines db front),
      Report.text ⟨e.message, none⟩⟩
  failed : ∀ e reached, empty.apply (runAll queries) = (.error e, reached) →
    ∃ front query back db lines report, queries = front ++ query :: back ∧
      empty.apply (runAll front) = (.ok (), db) ∧ Reports db query e lines report ∧
      transcript = ⟨1, unlines (insertionLines (empty.runDeeds queries)),
        unlines lines ++ report.text⟩

variable {options : Options} {queries : List String}

/-- Once all queries have run, the session has the database of the library and goes on to print. -/
theorem run_play_completed (hTokens : options.showTokens = false)
    (hStatements : options.showStatements = false) {db : Database}
    (h : empty.apply (runAll queries) = (.ok (), db)) :
    Session.start.run (Session.play options queries) =
      (Session.start.advance db (empty.runDeeds queries)).run
        (options.dumps.forM Session.dump) := by
  have hFollows := Session.follows_queries hTokens hStatements queries Session.start
  generalize hRun : Session.start.run (queries.forM (Session.executeQuery options)) = outcome
    at hFollows
  have hStart : Session.start.database.apply (runAll queries) = (.ok (), db) := h
  rw [hStart] at hFollows
  cases hFollows with
  | ok => exact Session.start.run_bind_ok hRun

theorem run_play_failed (hTokens : options.showTokens = false)
    (hStatements : options.showStatements = false) {e : StoreError} {reached : Database}
    (h : empty.apply (runAll queries) = (.error e, reached)) :
    ∃ front query back db lines report, queries = front ++ query :: back ∧
      empty.apply (runAll front) = (.ok (), db) ∧ Reports db query e lines report ∧
      Session.start.run (Session.play options queries) =
        (.error report, (Session.start.advance reached (empty.runDeeds queries)).point lines) := by
  have hFollows := Session.follows_queries hTokens hStatements queries Session.start
  generalize hRun : Session.start.run (queries.forM (Session.executeQuery options)) = outcome
    at hFollows
  have hStart : Session.start.database.apply (runAll queries) = (.error e, reached) := h
  rw [hStart] at hFollows
  cases hFollows with
  | error hReport =>
    obtain ⟨front, query, back, db, hQueries, hFront, hReports⟩ := hReport
    exact ⟨front, query, back, db, _, _, hQueries, hFront, hReports,
      Session.start.run_bind_error hRun⟩

theorem ofSession_of_ok {session : Session}
    (h : Session.start.run (Session.play options queries) = (.ok (), session)) :
    Transcript.ofSession options queries = ⟨0, session.output, session.diagnostics⟩ := by
  rw [Session.run] at h
  rw [Transcript.ofSession, h]

theorem ofSession_of_error {report : Report} {session : Session}
    (h : Session.start.run (Session.play options queries) = (.error report, session)) :
    Transcript.ofSession options queries =
      ⟨1, session.output, session.diagnostics ++ report.text⟩ := by
  rw [Session.run] at h
  rw [Transcript.ofSession, h]
  rfl

theorem ofSession_completed (hTokens : options.showTokens = false)
    (hStatements : options.showStatements = false) {db : Database}
    (h : empty.apply (runAll queries) = (.ok (), db))
    (hDumps : ∀ name ∈ options.dumps, ∃ table, db.table name = .ok table) :
    Transcript.ofSession options queries =
      ⟨0, unlines (insertionLines (empty.runDeeds queries) ++ dumpLines db options.dumps), ""⟩ := by
  have hRun := run_play_completed hTokens hStatements h
  rw [← List.append_nil options.dumps, Session.run_dumps_append hDumps] at hRun
  rw [ofSession_of_ok hRun, unlines_append]
  simp [Session.tell, Session.advance, Session.withDatabase, Session.start]

theorem ofSession_missing (hTokens : options.showTokens = false)
    (hStatements : options.showStatements = false) {db : Database} {front back : List String}
    {name : String} {e : StoreError} (h : empty.apply (runAll queries) = (.ok (), db))
    (hDumps : options.dumps = front ++ name :: back)
    (hFront : ∀ other ∈ front, ∃ table, db.table other = .ok table)
    (hName : db.table name = .error e) :
    Transcript.ofSession options queries =
      ⟨1, unlines (insertionLines (empty.runDeeds queries) ++ dumpLines db front),
        Report.text ⟨e.message, none⟩⟩ := by
  have hRun := run_play_completed hTokens hStatements h
  have hLast : ((Session.start.advance db (empty.runDeeds queries)).tell (dumpLines db front)).run
      ((name :: back).forM Session.dump) = _ := Session.run_bind_error _ (Session.run_dump_error hName)
  rw [hDumps, Session.run_dumps_append hFront] at hRun
  rw [ofSession_of_error (hRun.trans hLast), unlines_append]
  simp [Session.tell, Session.advance, Session.withDatabase, Session.start]

theorem exists_missing {db : Database} {names : List String}
    (h : ¬ ∀ name ∈ names, ∃ table, db.table name = .ok table) :
    ∃ front name back e, names = front ++ name :: back ∧
      (∀ other ∈ front, ∃ table, db.table other = .ok table) ∧ db.table name = .error e := by
  induction names with
  | nil => exact absurd (by simp) h
  | cons name rest ih =>
    cases hName : db.table name with
    | error e => exact ⟨[], name, rest, e, rfl, by simp, hName⟩
    | ok table =>
      have hRest : ¬ ∀ other ∈ rest, ∃ table, db.table other = .ok table := fun hRest =>
        h (List.forall_mem_cons.mpr ⟨⟨table, hName⟩, hRest⟩)
      obtain ⟨front, other, back, e, rfl, hFront, hOther⟩ := ih hRest
      exact ⟨name :: front, other, back, e, rfl,
        List.forall_mem_cons.mpr ⟨⟨table, hName⟩, hFront⟩, hOther⟩

theorem agrees_ofSession (hTokens : options.showTokens = false)
    (hStatements : options.showStatements = false) (queries : List String) :
    Agrees queries options.dumps (Transcript.ofSession options queries) where
  completed _ h hDumps := ofSession_completed hTokens hStatements h hDumps
  missing _ _ _ _ _ h hDumps hFront hName := ofSession_missing hTokens hStatements h hDumps hFront hName
  failed := by
    intro e reached h
    obtain ⟨front, query, back, db, lines, report, hQueries, hFront, hReports, hRun⟩ :=
      run_play_failed hTokens hStatements h
    refine ⟨front, query, back, db, lines, report, hQueries, hFront, hReports, ?_⟩
    rw [ofSession_of_error hRun]
    simp [Session.point, Session.tell, Session.advance, Session.withDatabase, Session.start]
  exitCode := by
    rcases hAll : empty.apply (runAll queries) with ⟨e | _, db⟩
    · obtain ⟨_, _, _, _, _, _, -, -, -, hRun⟩ := run_play_failed hTokens hStatements hAll
      rw [ofSession_of_error hRun]
      simp
    · by_cases hDumps : ∀ name ∈ options.dumps, ∃ table, db.table name = .ok table
      · rw [ofSession_completed hTokens hStatements hAll hDumps]
        simpa using hDumps
      · obtain ⟨front, name, back, e, hSplit, hFront, hName⟩ := exists_missing hDumps
        rw [ofSession_missing hTokens hStatements hAll hSplit hFront hName]
        simpa using hDumps

/-- The queries are those among the arguments, or the input if there are none. -/
theorem ofInvocation_eq_ofSession {arguments : List String} {input : ByteArray} {options : Options}
    {queries : List String} (hArguments : Invocation.ofArguments arguments = .session options)
    (hQueries : options.queries = queries ∧ queries ≠ [] ∨
      options.queries = [] ∧ ∃ text, String.fromUTF8? input = some text ∧ queries = [text]) :
    Transcript.ofInvocation (.ofArguments arguments) input =
      Transcript.ofSession options queries := by
  rw [hArguments, Transcript.ofInvocation]
  rcases hQueries with ⟨rfl, hSome⟩ | ⟨hNone, text, hText, rfl⟩
  · simp [hSome]
  · simp [hNone, Transcript.ofInput, hText]

end SqlStore.CommandLine
