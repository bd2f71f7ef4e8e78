import SqlStore.Proofs.Database.RowCount
import SqlStore.Proofs.Query.Composition

/-!
# Running scripts

A script is executed statement by statement. If all its statements succeed, the count that it answers
is the number of rows that were added. Otherwise it answers the error of the first statement that
fails, and the database is the one which that statement found. A script that cannot be read does
nothing. So two texts joined by a terminator run as if they were run one after the other.
-/
namespace SqlStore.Database
set_option autoImplicit false

/-- All statements of the script succeed, one after the other. -/
inductive Completes : Database → Script → Database → Prop
  | nil {db : Database} : Completes db [] db
  | cons {db middle after : Database} {statement : Statement} {rest : Script} {count : Nat}
      (first : db.apply (execute statement) = (.ok count, middle))
      (others : Completes middle rest after) : Completes db (statement :: rest) after

/-- The statements before one that fails succeed and lead to the database that it finds. -/
def Fails (db : Database) (script : Script) (e : StoreError) (reached : Database) : Prop :=
  ∃ front statement back, script = front ++ statement :: back ∧ db.Completes front reached ∧
    (reached.apply (execute statement)).1 = .error e

theorem Completes.apply_executeAll {db after : Database} {script : Script}
    (h : db.Completes script after) :
    ∃ count, db.apply (executeAll script) = (.ok count, after) ∧
      after.rowCount = db.rowCount + count := by
  induction h with
  | nil => exact ⟨0, rfl, rfl⟩
  | @cons db middle after statement rest count first _ ih =>
    obtain ⟨more, hRest, hRows⟩ := ih
    refine ⟨count + more, ?_, ?_⟩
    · rw [executeAll, apply_bind_ok db first, apply_bind_ok middle hRest, apply_pure]
    · rw [hRows, (executed_of_apply_execute first).rowCount, Nat.add_assoc]

theorem executeAll_append (first second : Script) :
    executeAll (first ++ second) = do
      let count ← executeAll first
      return count + (← executeAll second) := by
  induction first with
  | nil => simp only [List.nil_append, executeAll, pure_bind, Nat.zero_add, bind_pure]
  | cons statement rest ih =>
    simp only [List.cons_append, executeAll, ih, bind_assoc, pure_bind, Nat.add_assoc]

theorem completes_or_fails (db : Database) (script : Script) :
    (∃ after, db.Completes script after) ∨ ∃ e reached, db.Fails script e reached := by
  induction script generalizing db with
  | nil => exact .inl ⟨db, .nil⟩
  | cons statement rest ih =>
    rcases apply_execute_cases db statement with ⟨count, middle, hApply, -⟩ | ⟨e, hApply⟩
    · rcases ih middle with ⟨after, hRest⟩ | ⟨e, reached, front, last, back, rfl, hFront, hLast⟩
      · exact .inl ⟨after, .cons hApply hRest⟩
      · exact .inr ⟨e, reached, statement :: front, last, back, rfl, .cons hApply hFront, hLast⟩
    · exact .inr ⟨e, db, [], statement, rest, rfl, .nil, by rw [hApply]⟩

theorem Fails.apply_executeAll {db reached : Database} {script : Script} {e : StoreError}
    (h : db.Fails script e reached) : db.apply (executeAll script) = (.error e, reached) := by
  obtain ⟨front, statement, back, rfl, hFront, hLast⟩ := h
  obtain ⟨count, hRun, -⟩ := hFront.apply_executeAll
  have hApply : reached.apply (execute statement) = (.error e, _) := Prod.ext hLast rfl
  have hUnchanged := eq_of_apply_execute_error hApply
  rw [hUnchanged] at hApply
  rw [executeAll_append, apply_bind_ok db hRun, executeAll]
  exact apply_bind_error reached (apply_bind_error reached hApply)

theorem run_of_ofText {sql : String} {script : Script} (h : Script.ofText sql = .ok script) :
    run sql = executeAll script := by
  rw [run, h]

theorem run_composed {a b : String} {first second : Script} (hFirst : Script.ofText a = .ok first)
    (hSecond : Script.ofText b = .ok second) :
    run (a ++ ";" ++ b) = do
      let count ← run a
      return count + (← run b) := by
  rw [run_of_ofText (ofText_composed_ok hFirst hSecond), run_of_ofText hFirst,
    run_of_ofText hSecond, executeAll_append]

/-- What it means to run a text: nothing if it cannot be read, else its statements up to the first
that fails; and a text that consists of two scripts runs as the one and then the other. -/
theorem apply_run (db : Database) :
    (∀ {sql : String} {e : QueryError}, Script.ofText sql = .error e →
      db.apply (run sql) = (.error (.query e), db)) ∧
    (∀ {sql : String} {script : Script}, Script.ofText sql = .ok script →
      ((∃ after, db.Completes script after) ∨ ∃ e reached, db.Fails script e reached) ∧
      (∀ {after : Database}, db.Completes script after →
        ∃ count, db.apply (run sql) = (.ok count, after) ∧
          after.rowCount = db.rowCount + count) ∧
      ∀ {e : StoreError} {reached : Database}, db.Fails script e reached →
        db.apply (run sql) = (.error e, reached)) ∧
    ∀ {a b : String} {first second : Script}, Script.ofText a = .ok first →
      Script.ofText b = .ok second →
      db.apply (run (a ++ ";" ++ b)) =
        match db.apply (run a) with
        | (.error e, reached) => (.error e, reached)
        | (.ok count, middle) =>
          match middle.apply (run b) with
          | (.error e, reached) => (.error e, reached)
          | (.ok more, after) => (.ok (count + more), after) := by
  refine ⟨?_, ?_, ?_⟩
  · intro sql e h
    rw [run, h]
    rfl
  · intro sql script h
    rw [run_of_ofText h]
    exact ⟨db.completes_or_fails script, Completes.apply_executeAll, Fails.apply_executeAll⟩
  · intro a b first second hFirst hSecond
    rw [run_composed hFirst hSecond, apply_bind]
    rcases db.apply (run a) with ⟨_ | count, middle⟩
    · rfl
    · dsimp only
      rw [apply_bind]
      rcases middle.apply (run b) with ⟨_ | more, after⟩ <;> rfl

theorem apply_run_sample :
    let created := empty.put "t" ⟨"t", [⟨"a", .int, []⟩], []⟩
    let filled := empty.put "t" ⟨"t", [⟨"a", .int, []⟩], [[.number "1"], [.null]]⟩
    empty.apply (run "CREATE TABLE t (a INT); DROP TABLE t") =
        (.error (.query (.parse ⟨.unsupportedStatement "DROP", 8⟩)), empty) ∧
      (∃ count, empty.apply (run "CREATE TABLE t (a INT); INSERT INTO t (a) VALUES (1), (NULL)") =
        (.ok count, filled) ∧ filled.rowCount = empty.rowCount + count) ∧
      empty.apply (run "CREATE TABLE t (a INT); INSERT INTO u (a) VALUES (1)") =
        (.error (.unknownTable "u"), created) ∧
      empty.apply (run ("CREATE TABLE t (a INT)" ++ ";" ++ "INSERT INTO u (a) VALUES (1)")) =
        match empty.apply (run "CREATE TABLE t (a INT)") with
        | (.error e, reached) => (.error e, reached)
        | (.ok count, middle) =>
          match middle.apply (run "INSERT INTO u (a) VALUES (1)") with
          | (.error e, reached) => (.error e, reached)
          | (.ok more, after) => (.ok (count + more), after) := by
  intro created filled
  let create : Statement := .createTable ⟨"t", [⟨"a", .int, []⟩], []⟩
  let insert : Statement := .insertInto ⟨"t", ["a"], [[.number "1"], [.null]]⟩
  let insertElsewhere : Statement := .insertInto ⟨"u", ["a"], [[.number "1"]]⟩
  have hCompletes : empty.Completes [create, insert] filled := .cons rfl (.cons rfl .nil)
  have hFails : empty.Fails [create, insertElsewhere] (.unknownTable "u") created :=
    ⟨[create], insertElsewhere, [], rfl, .cons rfl .nil, rfl⟩
  have hInsert : Script.ofText "CREATE TABLE t (a INT); INSERT INTO t (a) VALUES (1), (NULL)" =
      .ok [create, insert] := by decide +kernel
  have hElsewhere : Script.ofText "CREATE TABLE t (a INT); INSERT INTO u (a) VALUES (1)" =
      .ok [create, insertElsewhere] := by decide +kernel
  have hFirst : Script.ofText "CREATE TABLE t (a INT)" = .ok [create] := by decide +kernel
  have hSecond : Script.ofText "INSERT INTO u (a) VALUES (1)" = .ok [insertElsewhere] := by
    decide +kernel
  exact ⟨(apply_run empty).1 (by decide +kernel), ((apply_run empty).2.1 hInsert).2.1 hCompletes,
    ((apply_run empty).2.1 hElsewhere).2.2 hFails, (apply_run empty).2.2 hFirst hSecond⟩

end SqlStore.Database
