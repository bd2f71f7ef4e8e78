import Mathlib.Data.List.Sort
import SqlStore.Proofs.Database.Cells

/-!
# Operations on different tables

An operation other than a script concerns one table: what it answers and what becomes of that table
depend on nothing but the table, and all other tables stay as they were. So operations on different
tables can be done in either order. The operations of a history can be done in any order that keeps
those on the same table in theirs, because each of them finds its table as it did before.
-/
namespace SqlStore
set_option autoImplicit false

/-- The table that is created, changed or dropped. A script may concern any number of them. -/
def Operation.table? : Operation → Option String
  | createTable name _ | insert name _ | drop name => some name
  | execute statement => some statement.table
  | run _ => none

/-- Another order of some operations, by their places, that keeps the order of those on the same
table. -/
structure Reordering (operations : List Operation) (order : List Nat) : Prop where
  places : order.Perm (List.range operations.length)
  kept : order.Pairwise fun i j =>
    operations[i]?.bind Operation.table? = operations[j]?.bind Operation.table? → i < j

/-! ### Rearranging -/

section

variable {α : Type} {items : List α} {order : List Nat}

theorem filter_rearranged (p : α → Bool) (order : List Nat) (items : List α) :
    (rearranged order items).filter p = rearranged (order.filter (items[·]?.any p)) items := by
  rw [rearranged, rearranged, List.filter_filterMap, List.filterMap_filter]
  congr 1
  funext i
  cases items[i]? <;> rfl

theorem map_some_rearranged (h : ∀ i ∈ order, i < items.length) :
    (rearranged order items).map some = order.map (items[·]?) := by
  induction order with
  | nil => rfl
  | cons i order ih =>
    obtain ⟨hFirst, hRest⟩ := List.forall_mem_cons.mp h
    have hItem := List.getElem?_eq_getElem hFirst
    rw [List.map_cons, ← ih hRest, hItem, rearranged, List.filterMap_cons_some hItem]
    rfl

theorem getElem?_rearranged (h : ∀ i ∈ order, i < items.length) (k : Nat) :
    (rearranged order items)[k]? = order[k]?.bind (items[·]?) := by
  have hAt := congrArg (·[k]?.bind id) (map_some_rearranged h)
  simpa [Option.bind_map, Function.comp_def] using hAt

theorem take_rearranged (h : ∀ i ∈ order, i < items.length) (k : Nat) :
    (rearranged order items).take k = rearranged (order.take k) items := by
  have hTake : ∀ i ∈ order.take k, i < items.length := fun i hi => h i (List.mem_of_mem_take hi)
  refine List.map_injective_iff.mpr (Option.some_injective α) ?_
  rw [List.map_take, map_some_rearranged h, map_some_rearranged hTake, List.map_take]

theorem mem_of_mem_rearranged {item : α} (h : item ∈ rearranged order items) : item ∈ items := by
  obtain ⟨_, -, hItem⟩ := List.mem_filterMap.mp h
  exact List.mem_of_getElem? hItem

end

section

variable {operations : List Operation} {order : List Nat}

/-- The operations on a table among some places, if these are in order and are all places before `k`
that have operations on it. -/
theorem filter_rearranged_eq_filter_take {places : List Nat} {k : Nat} {name : String}
    (hKept : places.Pairwise fun i j =>
      operations[i]?.bind Operation.table? = operations[j]?.bind Operation.table? → i < j)
    (hMem : ∀ i, operations[i]?.bind Operation.table? = some name → (i ∈ places ↔ i < k)) :
    (rearranged places operations).filter (·.table? = some name) =
      (operations.take k).filter (·.table? = some name) := by
  have hOn : ∀ {i : Nat}, operations[i]?.any (fun item => item.table? = some name) = true ↔
      operations[i]?.bind Operation.table? = some name := by
    simp [Option.any_eq_true, Option.bind_eq_some_iff]
  rw [← rearranged_range, filter_rearranged, filter_rearranged]
  congr 1
  refine List.Pairwise.eq_of_mem_iff (r := (· < ·)) ?_ (List.pairwise_lt_range.filter _) fun i => ?_
  · refine (hKept.filter _).imp_of_mem fun hi hj hLt => hLt ?_
    rw [hOn.mp (List.mem_filter.mp hi).2, hOn.mp (List.mem_filter.mp hj).2]
  · rw [List.mem_filter, List.mem_filter, List.mem_range]
    exact and_congr_left fun hi => hMem i (hOn.mp hi)

/-- Before the place of an operation the same places with operations on its table stand as in the
given order. -/
theorem Reordering.mem_take_iff (hOrder : Reordering operations order) {m i j : Nat}
    (hPlace : order[m]? = some i) (hTable : operations[j]?.bind Operation.table? =
      operations[i]?.bind Operation.table?) (hj : j < operations.length) :
    j ∈ order.take m ↔ j < i := by
  obtain ⟨hm, rfl⟩ := List.getElem?_eq_some_iff.mp hPlace
  have hKept := hOrder.kept
  have hMem : j ∈ order := hOrder.places.mem_iff.mpr (List.mem_range.mpr hj)
  rw [← List.take_append_drop m order, List.drop_eq_getElem_cons hm] at hKept hMem
  rw [List.pairwise_append, List.pairwise_cons] at hKept
  obtain ⟨-, ⟨hLater, -⟩, hEarlier⟩ := hKept
  constructor
  · exact fun hj => hEarlier j hj _ List.mem_cons_self hTable
  · intro hLt
    rcases List.mem_append.mp hMem with hFront | hBack
    · exact hFront
    · rcases List.mem_cons.mp hBack with rfl | hBack
      · exact absurd hLt (Nat.lt_irrefl _)
      · exact absurd hLt (hLater j hBack hTable.symm).not_gt

end

namespace Database

def answer (db : Database) (operation : Operation) : Except StoreError Outcome :=
  (db.apply operation.perform).1

def answers (db : Database) : List Operation → List (Except StoreError Outcome)
  | [] => []
  | operation :: rest => db.answer operation :: (db.step operation).answers rest

/-- The operation answers by one table and changes no other. -/
structure Concerns {α : Type} (operation : StoreM α) (name : String) : Prop where
  alike : ∀ {a b : Database}, a.find? name = b.find? name →
    (a.apply operation).1 = (b.apply operation).1 ∧
      (a.apply operation).2.find? name = (b.apply operation).2.find? name
  others : ∀ (db : Database) {other : String}, other ≠ name →
    (db.apply operation).2.find? other = db.find? other

/-! ### One operation -/

section Concerns

variable {α β : Type} {name : String}

theorem table_congr {a b : Database} (h : a.find? name = b.find? name) :
    a.table name = b.table name := by
  rw [Database.table, Database.table, h]

theorem find?_put_of_ne (db : Database) {other : String} (table : Table) (h : other ≠ name) :
    (db.put name table).find? other = db.find? other := by
  rw [find?_put, if_neg h.symm]

theorem concerns_createTable (name : String) (columns : List Column) :
    Concerns (createTable name columns) name where
  alike h := by
    rw [apply_createTable, apply_createTable, h]
    split
    · exact ⟨rfl, h⟩
    · cases Column.firstRepeated? columns with
      | some column => exact ⟨rfl, h⟩
      | none => exact ⟨rfl, by rw [find?_put_self, find?_put_self]⟩
  others db other hOther := by
    rw [apply_createTable]
    split
    · rfl
    · cases Column.firstRepeated? columns with
      | some column => rfl
      | none => exact db.find?_put_of_ne _ hOther

theorem concerns_insert (name : String) (row : Row) : Concerns (insert name row) name where
  alike {a b} h := by
    rw [apply_insert, apply_insert, table_congr h]
    cases b.table name with
    | error e => exact ⟨rfl, h⟩
    | ok table =>
      dsimp only
      split
      · exact ⟨rfl, by rw [find?_put_self, find?_put_self]⟩
      · exact ⟨rfl, h⟩
  others db other hOther := by
    rw [apply_insert]
    cases db.table name with
    | error e => rfl
    | ok table =>
      dsimp only
      split
      · exact db.find?_put_of_ne _ hOther
      · rfl

theorem concerns_drop (name : String) : Concerns (drop name) name where
  alike h := by
    rw [apply_drop, apply_drop, find?_remove, find?_remove, h]
    exact ⟨rfl, rfl⟩
  others db other hOther := by rw [apply_drop, find?_remove, if_neg hOther.symm]

theorem concerns_executeInsert (statement : InsertInto) :
    Concerns (executeInsert statement) statement.table where
  alike {a b} h := by
    rw [apply_executeInsert, apply_executeInsert, table_congr h]
    cases b.table statement.table with
    | error e => exact ⟨rfl, h⟩
    | ok table =>
      dsimp only
      cases table.positions statement.columns with
      | error e => exact ⟨rfl, h⟩
      | ok positions => exact ⟨rfl, by rw [find?_put_self, find?_put_self]⟩
  others db other hOther := by
    rw [apply_executeInsert]
    cases db.table statement.table with
    | error e => rfl
    | ok table =>
      dsimp only
      cases table.positions statement.columns with
      | error e => rfl
      | ok positions => exact db.find?_put_of_ne _ hOther

theorem apply_bind_pure_fst (db : Database) (operation : StoreM α) (f : α → β) :
    (db.apply (operation >>= fun a => pure (f a))).1 = (db.apply operation).1.map f := by
  rw [apply_bind]
  rcases db.apply operation with ⟨_ | _, after⟩ <;> rfl

theorem Concerns.map {operation : StoreM α} (h : Concerns operation name) (f : α → β) :
    Concerns (operation >>= fun a => pure (f a)) name where
  alike hFind := by
    obtain ⟨hAnswer, hTable⟩ := h.alike hFind
    rw [apply_bind_pure_fst, apply_bind_pure_fst, apply_bind_pure_snd, apply_bind_pure_snd, hAnswer]
    exact ⟨rfl, hTable⟩
  others db other hOther := by
    rw [apply_bind_pure_snd]
    exact h.others db hOther

theorem concerns_execute (statement : Statement) : Concerns (execute statement) statement.table := by
  cases statement with
  | createTable statement => exact (concerns_createTable _ _).map fun _ => 0
  | insertInto statement => exact concerns_executeInsert statement

theorem concerns_perform {operation : Operation} (h : operation.table? = some name) :
    Concerns operation.perform name := by
  cases operation <;> cases h
  case createTable columns => exact (concerns_createTable name columns).map _
  case insert row => exact (concerns_insert name row).map _
  case drop => exact (concerns_drop name).map _
  case execute statement => exact (concerns_execute statement).map _

end Concerns

section

variable {a b db : Database} {operation first second : Operation} {name other : String}

theorem answer_congr (h : operation.table? = some name) (hFind : a.find? name = b.find? name) :
    a.answer operation = b.answer operation :=
  ((concerns_perform h).alike hFind).1

theorem find?_step_congr (h : operation.table? = some name)
    (hFind : a.find? name = b.find? name) :
    (a.step operation).find? name = (b.step operation).find? name :=
  ((concerns_perform h).alike hFind).2

theorem find?_step_of_ne (h : operation.table? = some name) (hOther : other ≠ name) :
    (db.step operation).find? other = db.find? other :=
  (concerns_perform h).others db hOther

theorem step_comm (hFirst : first.table? = some name) (hSecond : second.table? = some other)
    (hOther : other ≠ name) : (db.step first).step second = (db.step second).step first := by
  refine ext_find? fun any => ?_
  by_cases hName : any = name
  · subst hName
    rw [find?_step_of_ne hSecond hOther.symm]
    exact find?_step_congr hFirst (find?_step_of_ne hSecond hOther.symm).symm
  · rw [find?_step_of_ne hFirst hName]
    by_cases hOther' : any = other
    · subst hOther'
      exact find?_step_congr hSecond (find?_step_of_ne hFirst hOther)
    · rw [find?_step_of_ne hSecond hOther', find?_step_of_ne hSecond hOther',
        find?_step_of_ne hFirst hName]

end

/-! ### Histories -/

section

variable {operations : List Operation} {order : List Nat} {db : Database}

/-- A table after a history is that after the operations on it alone. -/
theorem find?_after_eq_filter (name : String)
    (hOperations : ∀ operation ∈ operations, operation.table?.isSome) :
    (db.after operations).find? name =
      (db.after (operations.filter (·.table? = some name))).find? name := by
  -- The operations on other tables are left out on one side only, so the two databases part.
  suffices h : ∀ a b : Database, a.find? name = b.find? name →
      (a.after operations).find? name =
        (b.after (operations.filter (·.table? = some name))).find? name from h db db rfl
  intro a b hFind
  induction operations generalizing a b with
  | nil => exact hFind
  | cons operation rest ih =>
    obtain ⟨hFirst, hRest⟩ := List.forall_mem_cons.mp hOperations
    obtain ⟨table, hTable⟩ := Option.isSome_iff_exists.mp hFirst
    by_cases hName : table = name
    · subst hName
      rw [List.filter_cons_of_pos (by simpa using hTable)]
      exact ih hRest _ _ (find?_step_congr hTable hFind)
    · rw [List.filter_cons_of_neg (by simpa [hTable] using hName)]
      exact ih hRest _ _ ((find?_step_of_ne hTable (Ne.symm hName)).trans hFind)

theorem find?_after_congr {others : List Operation} {name : String}
    (hOperations : ∀ operation ∈ operations, operation.table?.isSome)
    (hOthers : ∀ operation ∈ others, operation.table?.isSome)
    (hSame : operations.filter (·.table? = some name) = others.filter (·.table? = some name)) :
    (db.after operations).find? name = (db.after others).find? name := by
  rw [find?_after_eq_filter name hOperations, hSame, ← find?_after_eq_filter name hOthers]

theorem getElem?_answers (db : Database) (operations : List Operation) (k : Nat) :
    (db.answers operations)[k]? =
      operations[k]?.map (db.after (operations.take k)).answer := by
  induction operations generalizing db k with
  | nil => rfl
  | cons operation rest ih =>
    cases k with
    | zero => rfl
    | succ k => exact ih (db.step operation) k

theorem length_answers (db : Database) (operations : List Operation) :
    (db.answers operations).length = operations.length := by
  induction operations generalizing db with
  | nil => rfl
  | cons operation rest ih => rw [answers, List.length_cons, List.length_cons, ih]

theorem after_rearranged (db : Database)
    (hOperations : ∀ operation ∈ operations, operation.table?.isSome)
    (hOrder : Reordering operations order) :
    db.after (rearranged order operations) = db.after operations := by
  refine ext_find? fun name => ?_
  have hSame : (rearranged order operations).filter (·.table? = some name) =
      (operations.take operations.length).filter (·.table? = some name) :=
    filter_rearranged_eq_filter_take hOrder.kept fun i _ => by
      rw [hOrder.places.mem_iff, List.mem_range]
  rw [List.take_length] at hSame
  exact find?_after_congr (fun _ h => hOperations _ (mem_of_mem_rearranged h)) hOperations hSame

theorem answers_rearranged (db : Database)
    (hOperations : ∀ operation ∈ operations, operation.table?.isSome)
    (hOrder : Reordering operations order) :
    db.answers (rearranged order operations) = rearranged order (db.answers operations) := by
  have hBound : ∀ i ∈ order, i < operations.length := fun i hi =>
    List.mem_range.mp (hOrder.places.mem_iff.mp hi)
  refine List.ext_getElem? fun m => ?_
  rw [getElem?_answers, getElem?_rearranged hBound,
    getElem?_rearranged (by simpa only [length_answers] using hBound)]
  cases hPlace : order[m]? with
  | none => rfl
  | some i =>
    have hi := hBound i (List.mem_of_getElem? hPlace)
    have hOperation := List.getElem?_eq_getElem hi
    rw [Option.bind_some, Option.bind_some, getElem?_answers, hOperation, Option.map_some,
      Option.map_some, take_rearranged hBound]
    -- The operation finds its table as before, since the same operations on it come first.
    obtain ⟨name, hName⟩ := Option.isSome_iff_exists.mp (hOperations _ (List.getElem_mem hi))
    have hTable : operations[i]?.bind Operation.table? = some name := by
      rw [hOperation, Option.bind_some, hName]
    have hSame : (rearranged (order.take m) operations).filter (·.table? = some name) =
        (operations.take i).filter (·.table? = some name) :=
      filter_rearranged_eq_filter_take (hOrder.kept.sublist (List.take_sublist m order))
        fun j hj => by
          obtain ⟨_, hAt, -⟩ := Option.bind_eq_some_iff.mp hj
          exact hOrder.mem_take_iff hPlace (hj.trans hTable.symm)
            (List.getElem?_eq_some_iff.mp hAt).1
    congr 1
    exact answer_congr hName (find?_after_congr
      (fun _ h => hOperations _ (mem_of_mem_rearranged h))
      (fun _ h => hOperations _ (List.mem_of_mem_take h)) hSame)

end

theorem table_step_of_ne {db : Database} {operation : Operation} {name other : String}
    (h : operation.table? = some name) (hOther : other ≠ name) :
    (db.step operation).table other = db.table other :=
  table_congr (find?_step_of_ne h hOther)

/-- Operations on different tables do the same in either order, and those of a history do the same
in every order that keeps the ones on the same table in theirs. -/
theorem same_in_any_order (db : Database) :
    (∀ {first second : Operation} {a b : String},
      first.table? = some a → second.table? = some b → a ≠ b →
        (db.step second).answer first = db.answer first ∧
        (db.step first).answer second = db.answer second ∧
        (db.step first).step second = (db.step second).step first) ∧
    (∀ {operation : Operation} {name other : String}, operation.table? = some name →
      other ≠ name → (db.step operation).table other = db.table other) ∧
    ∀ {operations : List Operation} {order : List Nat},
      (∀ operation ∈ operations, operation.table?.isSome) → Reordering operations order →
        db.after (rearranged order operations) = db.after operations ∧
        db.answers (rearranged order operations) = rearranged order (db.answers operations) := by
  refine ⟨?_, table_step_of_ne, ?_⟩
  · intro first second a b hFirst hSecond hOther
    exact ⟨answer_congr hFirst (find?_step_of_ne hSecond hOther),
      answer_congr hSecond (find?_step_of_ne hFirst hOther.symm),
      step_comm hFirst hSecond hOther.symm⟩
  · intro operations order hOperations hOrder
    exact ⟨after_rearranged db hOperations hOrder, answers_rearranged db hOperations hOrder⟩

/-- Two tables are filled in turn, and then one after the other. -/
theorem same_in_any_order_sample :
    let a : Operation := .createTable "a" [⟨"x", .int, []⟩]
    let b : Operation := .execute (.createTable ⟨"b", [⟨"x", .int, []⟩], []⟩)
    let rowA : Operation := .insert "a" [.number "1"]
    let rowB : Operation := .execute (.insertInto ⟨"b", ["y"], [[.number "2"]]⟩)
    let history := [a, b, rowA, rowB, .drop "a"]
    let order := [1, 3, 0, 2, 4]
    a.table? = some "a" ∧ rowB.table? = some "b" ∧
      (empty.step rowB).answer a = .ok .done ∧
      ((empty.step b).step rowA).table "b" = .ok ⟨"b", [⟨"x", .int, []⟩], []⟩ ∧
      (∀ operation ∈ history, operation.table?.isSome) ∧ Reordering history order ∧
      empty.after (rearranged order history) = empty.after history ∧
      empty.answers (rearranged order history) =
        [.ok (.affected 0), .error (.unknownColumn "b" "y"), .ok .done, .ok .done,
          .ok (.dropped (some ⟨"a", [⟨"x", .int, []⟩], [[.number "1"]]⟩))] := by
  intro a b rowA rowB history order
  have hA : a.table? = some "a" := rfl
  have hRowA : rowA.table? = some "a" := rfl
  have hB : rowB.table? = some "b" := rfl
  have hOperations : ∀ operation ∈ history, operation.table?.isSome := by decide
  have hOrder : Reordering history order := ⟨by decide, by decide⟩
  obtain ⟨hPair, -, hHistory⟩ := same_in_any_order empty
  obtain ⟨-, hOthers, -⟩ := same_in_any_order (empty.step b)
  obtain ⟨hAfter, hAnswers⟩ := hHistory hOperations hOrder
  refine ⟨hA, hB, ?_, ?_, hOperations, hOrder, hAfter, ?_⟩
  · exact (hPair hA hB (by decide)).1.trans (by decide +kernel)
  · exact (hOthers hRowA (by decide)).trans (by decide +kernel)
  · exact hAnswers.trans (by decide +kernel)

end Database
end SqlStore
