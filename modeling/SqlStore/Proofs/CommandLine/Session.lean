import SqlStore.CommandLine.Session
import SqlStore.Proofs.Database.Contents
import SqlStore.Proofs.Database.Run

/-!
# Sessions beside the library

A session scans, parses and executes its queries by itself. It does with its database what the
library does with a database of its own, query by query and statement by statement, and it tells of
each insertion in one line. Where the library fails, the session fails with a report of the error.
-/
namespace SqlStore
set_option autoImplicit false

namespace Database

/-- The library runs queries one after the other, up to the first that fails. -/
def runAll (queries : List String) : StoreM Unit :=
  queries.forM fun query => run query >>= fun _ => pure ()

theorem runAll_cons (query : String) (rest : List String) :
    runAll (query :: rest) = run query >>= fun _ => runAll rest := by
  have hLoop : runAll (query :: rest) =
      (run query >>= fun _ => pure ()) >>= fun _ => runAll rest := rfl
  simp only [hLoop, bind_assoc, pure_bind]

/-- The deeds of queries, up to where the first of them fails. -/
def runDeeds (db : Database) : List String → List Deed
  | [] => []
  | query :: rest =>
    (Operation.run query).deeds db ++
      match db.apply (run query) with
      | (.ok _, after) => runDeeds after rest
      | (.error _, _) => []

end Database

namespace CommandLine
open Database

/-- Lines as they are printed. -/
def unlines (lines : List String) : String :=
  String.join (lines.map (· ++ "\n"))

@[simp] theorem unlines_nil : unlines [] = "" := rfl

theorem unlines_cons (line : String) (lines : List String) :
    unlines (line :: lines) = line ++ "\n" ++ unlines lines := by
  rw [unlines, List.map_cons, String.join_cons, unlines]

theorem unlines_append (lines more : List String) :
    unlines (lines ++ more) = unlines lines ++ unlines more := by
  rw [unlines, List.map_append, String.join_append, unlines, unlines]

/-- An insertion is told of in a line, all other deeds are silent. -/
def insertionLine? : Deed → Option String
  | .inserted statement =>
    some ("inserted " ++ toString statement.rows.length ++ " rows into " ++ statement.table)
  | _ => none

def insertionLines (deeds : List Deed) : List String :=
  deeds.filterMap insertionLine?

/-- What points to the place of an error in a query. -/
def carets (query : String) : QueryError → List String
  | .lex cause => caret query cause.offset
  | .parse cause =>
    match tokenize query with
    | .ok tokens =>
      match tokens[cause.index]? with
      | some token => caret query token.offset
      | none => []
    | .error _ => []

/-- How a session reports that a query has failed on a database: an error of reading with its own
message, an error of a statement as the cause of a message that names the table. -/
inductive Reports (db : Database) (query : String) :
    StoreError → List String → Report → Prop
  | unread {cause : QueryError} (hText : Script.ofText query = .error cause) :
      Reports db query (.query cause) (carets query cause) ⟨(StoreError.query cause).message, none⟩
  | refused {front back : Script} {statement : Statement} {reached : Database} {e : StoreError}
      (hText : Script.ofText query = .ok (front ++ statement :: back))
      (hFront : db.Completes front reached) (hLast : (reached.apply (execute statement)).1 = .error e) :
      Reports db query e []
        ⟨"execute statement on table " ++ statement.table, some e.message⟩

namespace Session

variable {α β : Type} (session : Session)

def run (action : SessionM α) (session : Session) : Except Report α × Session :=
  (ExceptT.run action).run session

@[simp] theorem run_pure (a : α) : session.run (pure a) = (.ok a, session) := rfl

theorem run_bind (action : SessionM α) (next : α → SessionM β) :
    session.run (action >>= next) =
      match session.run action with
      | (.ok a, after) => after.run (next a)
      | (.error report, after) => (.error report, after) := by
  unfold run
  rw [ExceptT.run_bind, StateT.run_bind]
  generalize (ExceptT.run action).run session = outcome
  rcases outcome with ⟨_ | _, after⟩ <;> rfl

theorem run_bind_ok {action : SessionM α} {next : α → SessionM β} {a : α} {after : Session}
    (h : session.run action = (.ok a, after)) :
    session.run (action >>= next) = after.run (next a) := by
  rw [run_bind, h]

theorem run_bind_error {action : SessionM α} {next : α → SessionM β} {report : Report}
    {after : Session} (h : session.run action = (.error report, after)) :
    session.run (action >>= next) = (.error report, after) := by
  rw [run_bind, h]

/-! ### Printing -/

def tell (lines : List String) : Session :=
  { session with output := session.output ++ unlines lines }

def point (lines : List String) : Session :=
  { session with diagnostics := session.diagnostics ++ unlines lines }

@[simp] theorem tell_nil : session.tell [] = session := by
  simp [tell]

@[simp] theorem point_nil : session.point [] = session := by
  simp [point]

theorem tell_tell (lines more : List String) :
    (session.tell lines).tell more = session.tell (lines ++ more) := by
  simp [tell, unlines_append, String.append_assoc]

theorem point_point (lines more : List String) :
    (session.point lines).point more = session.point (lines ++ more) := by
  simp [point, unlines_append, String.append_assoc]

theorem run_say (line : String) : session.run (say line) = (.ok (), session.tell [line]) := by
  rw [tell, unlines_cons, unlines_nil, String.append_empty, ← String.append_assoc]
  rfl

theorem run_complain (line : String) :
    session.run (complain line) = (.ok (), session.point [line]) := by
  rw [point, unlines_cons, unlines_nil, String.append_empty, ← String.append_assoc]
  rfl

theorem run_forM_say {ι : Type} (line : ι → String) (items : List ι) :
    session.run (items.forM fun item => say (line item)) =
      (.ok (), session.tell (items.map line)) := by
  induction items generalizing session with
  | nil =>
    rw [List.map_nil, tell_nil]
    rfl
  | cons item rest ih =>
    refine (session.run_bind_ok (session.run_say (line item))).trans ?_
    rw [ih, tell_tell]
    rfl

theorem run_forM_complain (lines : List String) :
    session.run (lines.forM complain) = (.ok (), session.point lines) := by
  induction lines generalizing session with
  | nil =>
    rw [point_nil]
    rfl
  | cons line rest ih =>
    refine (session.run_bind_ok (session.run_complain line)).trans ?_
    rw [ih, point_point]
    rfl

/-! ### Executing -/

def withDatabase (db : Database) : Session :=
  { session with database := db }

/-- Some deeds have been done, and the insertions among them have been told of. -/
def advance (db : Database) (deeds : List Deed) : Session :=
  (session.withDatabase db).tell (insertionLines deeds)

@[simp] theorem advance_database (db : Database) (deeds : List Deed) :
    (session.advance db deeds).database = db := rfl

theorem advance_of_silent (db : Database) (deeds : List Deed) (h : insertionLines deeds = []) :
    session.advance db deeds = session.withDatabase db := by
  rw [advance, h, tell_nil]

theorem advance_nil : session.advance session.database [] = session :=
  session.tell_nil

theorem advance_advance (middle after : Database) (deeds more : List Deed) :
    (session.advance middle deeds).advance after more = session.advance after (deeds ++ more) := by
  simp [advance, withDatabase, tell, insertionLines, unlines_append, String.append_assoc]

/-- What becomes of a session, given what the library makes of its database: the same, with a line
for each insertion among the deeds, and with a report if the library fails. -/
inductive Follows (session : Session) (deeds : List Deed)
    (reports : StoreError → List String → Report → Prop) :
    Except StoreError α × Database → Except Report Unit × Session → Prop
  | ok {a : α} {after : Database} :
      Follows session deeds reports (.ok a, after) (.ok (), session.advance after deeds)
  | error {e : StoreError} {after : Database} {lines : List String} {report : Report}
      (hReport : reports e lines report) :
      Follows session deeds reports (.error e, after)
        (.error report, (session.advance after deeds).point lines)

variable {session} {deeds more : List Deed} {reports reports' : StoreError → List String → Report → Prop}

theorem Follows.database {result : Except StoreError α × Database}
    {outcome : Except Report Unit × Session} (h : session.Follows deeds reports result outcome) :
    outcome.2.database = result.2 := by
  cases h <;> rfl

/-- The value that the library answers is not looked at. -/
theorem Follows.map {operation : StoreM α} {db : Database} {outcome : Except Report Unit × Session}
    (h : session.Follows deeds reports (db.apply operation) outcome) (f : α → β) :
    session.Follows deeds reports (db.apply (operation >>= fun a => pure (f a))) outcome := by
  rw [apply_bind]
  generalize db.apply operation = result at h
  cases h with
  | ok => exact .ok
  | error hReport => exact .error hReport

theorem Follows.imp {result : Except StoreError α × Database}
    {outcome : Except Report Unit × Session} (h : session.Follows deeds reports result outcome)
    (hReports : ∀ e lines report, reports e lines report → reports' e lines report) :
    session.Follows deeds reports' result outcome := by
  cases h with
  | ok => exact .ok
  | error hReport => exact .error (hReports _ _ _ hReport)

theorem Follows.trans {middle : Database} {result : Except StoreError α × Database}
    {outcome : Except Report Unit × Session}
    (h : (session.advance middle deeds).Follows more reports result outcome) :
    session.Follows (deeds ++ more) reports result outcome := by
  cases h with
  | ok =>
    rw [advance_advance]
    exact .ok
  | error hReport =>
    rw [advance_advance]
    exact .error hReport

variable {options : Options}

theorem run_executeStatement (hShow : options.showStatements = false) (statement : Statement)
    (session : Session) :
    session.run (executeStatement options statement) =
      match session.database.apply (execute statement) with
      | (.error e, after) =>
        (.error ⟨"execute statement on table " ++ statement.table, some e.message⟩,
          session.withDatabase after)
      | (.ok count, after) =>
        (session.withDatabase after).run (match statement with
          | .insertInto _ => say ("inserted " ++ toString count ++ " rows into " ++ statement.table)
          | .createTable _ => pure ()) := by
  rw [executeStatement, hShow, if_neg Bool.false_ne_true]
  refine (session.run_bind_ok (a := session) rfl).trans ?_
  rcases session.database.apply (execute statement) with ⟨e | count, after⟩
  · rfl
  · cases statement <;> rfl

theorem follows_execute (hShow : options.showStatements = false) (statement : Statement)
    (session : Session) :
    session.Follows (statement.deed.unlessError (session.database.apply (execute statement)).1)
      (fun e lines report => lines = [] ∧
        report = ⟨"execute statement on table " ++ statement.table, some e.message⟩)
      (session.database.apply (execute statement))
      (session.run (executeStatement options statement)) := by
  rw [run_executeStatement hShow]
  rcases apply_execute_cases session.database statement with ⟨count, after, hApply, hDone⟩ | ⟨e, hApply⟩ <;>
    rw [hApply]
  · cases hDone with
    | created hFresh hDistinct =>
      dsimp only
      rw [run_pure, ← advance_of_silent session _ [.created _ _] rfl]
      exact .ok
    | inserted hFound hPositions =>
      dsimp only
      rw [run_say]
      exact .ok
  · dsimp only
    rw [← advance_of_silent session _ [] rfl, ← point_nil (session.advance _ _)]
    exact .error ⟨rfl, rfl⟩

theorem follows_script (hShow : options.showStatements = false) (script : Script)
    (session : Session) :
    session.Follows (script.deeds session.database)
      (fun e lines report => lines = [] ∧ ∃ front statement back reached,
        script = front ++ statement :: back ∧ session.database.Completes front reached ∧
        (reached.apply (execute statement)).1 = .error e ∧
        report = ⟨"execute statement on table " ++ statement.table, some e.message⟩)
      (session.database.apply (executeAll script))
      (session.run (script.forM (executeStatement options))) := by
  induction script generalizing session with
  | nil =>
    have hRun : session.run (([] : Script).forM (executeStatement options)) =
        (.ok (), session.advance session.database []) := by
      rw [advance_nil]
      rfl
    rw [hRun]
    exact .ok
  | cons statement rest ih =>
    have hFirst := follows_execute hShow statement session
    have hLoop : (statement :: rest).forM (executeStatement options) =
        executeStatement options statement >>= fun _ => rest.forM (executeStatement options) := rfl
    rw [hLoop, executeAll, Script.deeds]
    generalize hTold : session.run (executeStatement options statement) = told at hFirst
    generalize hApply : session.database.apply (execute statement) = result at hFirst
    cases hFirst with
    | @ok count after =>
      rw [session.run_bind_ok hTold, apply_bind_ok _ hApply]
      have hRest := (ih (session.advance after [statement.deed])).map (count + ·)
      refine Follows.trans (hRest.imp ?_)
      rintro e lines report ⟨rfl, front, last, back, reached, rfl, hFront, hLast, rfl⟩
      exact ⟨rfl, statement :: front, last, back, reached, rfl, .cons hApply hFront, hLast, rfl⟩
    | @error e after lines report hReport =>
      rw [session.run_bind_error hTold, apply_bind_error _ hApply]
      refine .error ⟨hReport.1, [], statement, rest, session.database, rfl, .nil, ?_, hReport.2⟩
      rw [hApply]

theorem run_pointed (lines : List String) (message : String) :
    session.run (lines.forM complain >>= fun _ => stop message none : SessionM Unit) =
      (.error ⟨message, none⟩, session.point lines) :=
  session.run_bind_ok (session.run_forM_complain lines)

/-- The lines that show the tokens of a query: none if it has no tokens or they are not asked for. -/
def tokenLines (options : Options) (query : String) : List String :=
  match tokenize query with
  | .ok tokens => if options.showTokens then tokens.map tokenLine else []
  | .error _ => []

theorem tokenLines_of_hidden (hTokens : options.showTokens = false) (query : String) :
    tokenLines options query = [] := by
  unfold tokenLines
  split <;> simp [hTokens]

theorem run_executeQuery (options : Options) (query : String) (session : Session) :
    session.run (executeQuery options query) =
      match Script.ofText query with
      | .error cause => (.error ⟨cause.message, none⟩,
          (session.tell (tokenLines options query)).point (carets query cause))
      | .ok script => (session.tell (tokenLines options query)).run
          (script.forM (executeStatement options)) := by
  rw [executeQuery, Script.ofText, tokenLines]
  cases hText : tokenize query with
  | error cause =>
    rw [readTokens_of_error hText, tell_nil]
    exact run_pointed (caret query cause.offset) _
  | ok tokens =>
    rw [readTokens_of_ok hText]
    have hShow : ∀ next : SessionM Unit,
        session.run (do
          if options.showTokens then tokens.forM fun token => say (tokenLine token)
          next) =
        (session.tell (if options.showTokens then tokens.map tokenLine else [])).run next := by
      intro next
      cases options.showTokens with
      | false => exact congrArg (·.run next) session.tell_nil.symm
      | true => exact session.run_bind_ok (session.run_forM_say _ _)
    refine (hShow _).trans ?_
    cases Script.ofTokens tokens with
    | error cause =>
      simp only [Except.mapError, carets, hText]
      cases tokens[cause.index]? with
      | none => rw [point_nil]; rfl
      | some token => exact run_pointed (caret query token.offset) _
    | ok script => rfl

theorem follows_query (hTokens : options.showTokens = false) (hShow : options.showStatements = false)
    (query : String) (session : Session) :
    session.Follows ((Operation.run query).deeds session.database)
      (Reports session.database query) (session.database.apply (Database.run query))
      (session.run (executeQuery options query)) := by
  rw [Operation.deeds, Database.run, run_executeQuery, tokenLines_of_hidden hTokens, tell_nil]
  cases hText : Script.ofText query with
  | error cause =>
    have hError : session.Follows [] (Reports session.database query)
        ((.error (.query cause), session.database) : Except StoreError Nat × Database)
        (.error _, (session.advance session.database []).point (carets query cause)) :=
      .error (.unread hText)
    rwa [advance_nil] at hError
  | ok script =>
    refine (follows_script hShow script session).imp ?_
    rintro e lines report ⟨rfl, front, statement, back, reached, rfl, hFront, hLast, rfl⟩
    exact .refused hText hFront hLast

theorem follows_queries (hTokens : options.showTokens = false)
    (hShow : options.showStatements = false) (queries : List String) (session : Session) :
    session.Follows (session.database.runDeeds queries)
      (fun e lines report => ∃ front query back reached, queries = front ++ query :: back ∧
        session.database.apply (runAll front) = (.ok (), reached) ∧
        Reports reached query e lines report)
      (session.database.apply (runAll queries))
      (session.run (queries.forM (executeQuery options))) := by
  induction queries generalizing session with
  | nil =>
    have hRun : session.run (([] : List String).forM (executeQuery options)) =
        (.ok (), session.advance session.database []) := by
      rw [advance_nil]
      rfl
    rw [hRun]
    exact .ok
  | cons query rest ih =>
    have hFirst := follows_query hTokens hShow query session
    have hLoop : (query :: rest).forM (executeQuery options) =
        executeQuery options query >>= fun _ => rest.forM (executeQuery options) := rfl
    rw [hLoop, runAll_cons, runDeeds]
    generalize hTold : session.run (executeQuery options query) = told at hFirst
    generalize hApply : session.database.apply (Database.run query) = result at hFirst
    cases hFirst with
    | @ok count after =>
      rw [session.run_bind_ok hTold, apply_bind_ok _ hApply]
      refine Follows.trans ((ih (session.advance after _)).imp ?_)
      rintro e lines report ⟨front, last, back, reached, rfl, hFront, hReports⟩
      refine ⟨query :: front, last, back, reached, rfl, ?_, hReports⟩
      rw [runAll_cons, apply_bind_ok _ hApply]
      exact hFront
    | @error e after lines report hReport =>
      rw [session.run_bind_error hTold, apply_bind_error _ hApply, List.append_nil]
      exact .error ⟨[], query, rest, session.database, rfl, rfl, hReport⟩

end Session
end CommandLine
end SqlStore
