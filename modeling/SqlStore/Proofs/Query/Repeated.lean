import SqlStore.Proofs.Database.Soundness
import SqlStore.Proofs.Parser.Repeated
import SqlStore.Proofs.Query.RoundTrip

/-!
# Repeated columns in texts

The parser refuses a column that repeats a name when it has read it, and the database looks for one
in the finished list. On the text of a list of columns both name the same column, the first one that
repeats an earlier name, and the error of the parser points at the token where that column starts. If
no name is repeated, the text makes the same table as the list.
-/
namespace SqlStore
open SqlStore.Parser Grammar
set_option autoImplicit false

namespace CreateTable

/-- The text of a table before a column that comes after these. -/
def textBefore (table : String) (front : List Column) : String :=
  "CREATE TABLE " ++ table ++ " (" ++ ", ".intercalate (front.map Column.text) ++ ", "

/-- The text of these columns at the end of a table. -/
def textFrom (columns : List Column) : String :=
  ", ".intercalate (columns.map Column.text) ++ ")"

theorem text_append (table : String) {front back : List Column} (hFront : front ≠ [])
    (hBack : back ≠ []) :
    text ⟨table, front ++ back, []⟩ = textBefore table front ++ textFrom back := by
  unfold text textBefore textFrom
  rw [List.map_append, List.map_nil, List.append_nil,
    String.intercalate_append_of_ne_nil (by simpa using hFront) (by simpa using hBack)]
  simp only [String.append_assoc]

end CreateTable

/-! ### Tokens of the parts -/

section

variable {table : String} {front back columns : List Column} {column : Column}

theorem spells_columns (hNonempty : columns ≠ [])
    (hColumns : ∀ column ∈ columns, column.WellFormed) :
    Spells (", ".intercalate (columns.map Column.text)).toList (EntriesForm · columns [])
      Breaks := by
  simpa using @spells_entries columns [] hNonempty hColumns nofun

theorem spells_textBefore (hTable : IsName table) (hFront : front ≠ [])
    (hColumns : ∀ column ∈ front, column.WellFormed) :
    Spells (CreateTable.textBefore table front).toList
      (fun ts => ∃ heading us comma, ts = heading ++ (us ++ [comma]) ∧
        Heading .create .table heading ∧ EntriesForm us front [] ∧ comma.kind = .comma)
      anyText := by
  have hText : (CreateTable.textBefore table front).toList =
      (Keyword.create.spelling.toList ++ ' ' :: (Keyword.table.spelling.toList ++ ' ' ::
        (table.toList ++ [' ', '(']))) ++
      ((", ".intercalate (front.map Column.text)).toList ++ ([','] ++ [' '])) := by
    have hStart : "CREATE TABLE ".toList = Keyword.create.spelling.toList ++ ' ' ::
        (Keyword.table.spelling.toList ++ [' ']) := rfl
    have hOpen : " (".toList = [' ', '('] := rfl
    have hComma : ", ".toList = [',', ' '] := rfl
    unfold CreateTable.textBefore
    simp only [String.toList_append, hStart, hOpen, hComma, List.append_assoc, List.cons_append,
      List.nil_append]
  have hComma : Spells [','] _ anyText :=
    spells_sign .comma rfl (fun _ => trivial) (by decide)
  have hSpace : Spells [' '] (Eq []) anyText := (spells_nil rfl).space
  have hList := (spells_columns hFront hColumns).append
    (hComma.append hSpace fun _ _ => trivial) fun rest _ => breaks_cons _ (by decide)
  rw [hText]
  refine ((spells_heading .create .table hTable).append hList fun _ _ => trivial).imp ?_
  rintro ts ⟨_, _, rfl, ⟨create, table, name, opening, rfl, isCreate, isTable, isName, -,
    isOpening⟩, us, _, rfl, hUs, _, _, rfl, ⟨comma, rfl, isComma⟩, rfl⟩
  exact ⟨_, us, comma, rfl, ⟨isCreate, isTable, isName, isOpening⟩, hUs, isComma⟩

/-- The first column of a list, and what stands after it. -/
theorem exists_first_of_entriesForm {ts : List Token} {checks : List Condition}
    (h : EntriesForm ts columns checks) :
    ∃ us vs first others, columns = first :: others ∧ ts = us ++ vs ∧ ColumnForm us first ∧
      ∀ t, EndsColumn t → EndsColumn (vs.headD t) := by
  have hNext : ∀ {vs us : List Token} {comma : Token}, comma.kind = .comma →
      (∀ t, EndsColumn t → EndsColumn (vs.headD t)) →
        ∀ t, EndsColumn t → EndsColumn ((vs ++ comma :: us).headD t) := by
    intro vs us comma isComma hEnds t ht
    cases vs with
    | nil => simp [EndsColumn, isComma]
    | cons v vs => exact hEnds t ht
  induction h with
  | @first ts column form => exact ⟨ts, [], column, [], rfl, by simp, form, fun t ht => ht⟩
  | column entries isComma form ih =>
    obtain ⟨us, vs, first, others, rfl, rfl, hFirst, hEnds⟩ := ih
    exact ⟨us, _, first, _, rfl, List.append_assoc .., hFirst, hNext isComma hEnds⟩
  | check entries isComma form ih =>
    obtain ⟨us, vs, first, others, rfl, rfl, hFirst, hEnds⟩ := ih
    exact ⟨us, _, first, _, rfl, List.append_assoc .., hFirst, hNext isComma hEnds⟩

theorem spells_textFrom (hColumns : ∀ other ∈ column :: back, other.WellFormed) :
    Spells (CreateTable.textFrom (column :: back)).toList
      (fun ts => ∃ us vs, ts = us ++ vs ∧ ColumnForm us column ∧
        ∀ t, EndsColumn (vs.headD t))
      anyText := by
  have hText : (CreateTable.textFrom (column :: back)).toList =
      (", ".intercalate ((column :: back).map Column.text)).toList ++ [')'] := by
    rw [CreateTable.textFrom, String.toList_append]
    rfl
  have hClose : Spells [')'] _ anyText :=
    spells_sign .parenClose rfl (fun _ => trivial) (by decide)
  rw [hText]
  refine ((spells_columns (List.cons_ne_nil column back) hColumns).append hClose
    fun rest _ => breaks_cons rest (by decide)).imp ?_
  rintro ts ⟨_, _, rfl, hEntries, closing, rfl, isClosing⟩
  obtain ⟨us, vs, first, others, hFirst, rfl, hForm, hEnds⟩ := exists_first_of_entriesForm hEntries
  obtain ⟨rfl, rfl⟩ := List.cons.inj hFirst
  refine ⟨us, vs ++ [closing], List.append_assoc .., hForm, fun t => ?_⟩
  have hClosing : EndsColumn closing := by simp [EndsColumn, isClosing]
  cases vs with
  | nil => exact hClosing
  | cons v vs => exact hEnds closing hClosing

theorem Scanned.offset_eq {offset : Nat} {c : Char} {cs : List Char} {t : Token}
    {tokens : List Token} (h : Scanned offset (c :: cs) (t :: tokens))
    (hBlank : Text.isBlank c = false) : t.offset = offset := by
  generalize hText : c :: cs = text at h
  cases h with
  | blank isBlank _ =>
    cases hText
    rw [hBlank] at isBlank
    cases isBlank
  | token _ _ => rfl

theorem exists_toList_textFrom (column : Column) (back : List Column) :
    ∃ more, (CreateTable.textFrom (column :: back)).toList = column.name.toList ++ more := by
  rw [CreateTable.textFrom, String.toList_append, String.toList_intercalate, List.map_cons,
    List.map_cons, intercalate_cons, toList_columnText]
  exact ⟨_, by rw [List.append_assoc, List.append_assoc]⟩

theorem head?_of_scanned_textFrom {offset : Nat} {ts vs : List Token} (hName : IsName column.name)
    (isColumn : ColumnForm ts column)
    (h : Scanned offset (CreateTable.textFrom (column :: back)).toList (ts ++ vs)) :
    (ts ++ vs).head? = some ⟨.identifier, column.name, offset⟩ := by
  obtain ⟨more, hMore⟩ := exists_toList_textFrom column back
  obtain ⟨c, word, hWord, hBlank⟩ := @exists_start .identifier _ hName
  rw [hMore, hWord] at h
  obtain ⟨name, us, ws, type, constraints, rfl, isIdentifier, -, -, rfl⟩ :=
    columnForm_iff.mp isColumn
  rw [← isIdentifier, ← h.offset_eq hBlank]
  rfl

/-- The parser refuses the first column that repeats a name, where it starts. -/
theorem ofText_of_repeated (hTable : IsName table)
    (hColumns : ∀ other ∈ front ++ column :: back, other.WellFormed)
    (hDistinct : (front.map Column.name).Nodup) (isTaken : column.name ∈ front.map Column.name) :
    ∃ tokens index,
      tokenize (CreateTable.text ⟨table, front ++ column :: back, []⟩) = .ok tokens ∧
      tokens[index]? =
        some ⟨.identifier, column.name, (CreateTable.textBefore table front).utf8ByteSize⟩ ∧
      Statement.ofText (CreateTable.text ⟨table, front ++ column :: back, []⟩) =
        .error (.parse ⟨.duplicateColumn column.name, index⟩) := by
  obtain ⟨hFrontColumns, hBackColumns⟩ := List.forall_mem_append.mp hColumns
  have hFront : front ≠ [] := by
    rintro rfl
    cases isTaken
  rw [CreateTable.text_append table hFront (List.cons_ne_nil column back)]
  generalize hSql : CreateTable.textBefore table front ++ CreateTable.textFrom (column :: back) = sql
  obtain ⟨_, ⟨ts, vs, rfl, isColumn, hEnds⟩, hFrom⟩ :=
    spells_textFrom hBackColumns (CreateTable.textBefore table front).utf8ByteSize [] [] trivial .done
  rw [List.append_nil, List.append_nil] at hFrom
  obtain ⟨_, ⟨heading, us, comma, rfl, isHeading, hEntries, isComma⟩, hScanned⟩ :=
    spells_textBefore hTable hFront hFrontColumns 0 _ _ trivial
      (by rwa [Nat.zero_add, ← Text.utf8ByteSize_eq])
  rw [← String.toList_append, hSql] at hScanned
  have hRest := @rest_ofTokens _ 0 sql.utf8ByteSize _ hScanned
  have hTokens := tokenize_iff.mpr ⟨_, hScanned, rfl⟩
  generalize hAll : heading ++ (us ++ [comma]) ++ (ts ++ vs) ++ [Token.endAt sql.utf8ByteSize] =
    tokens at hRest hTokens
  have isEntries : DistinctEntriesForm us (front, []) := ⟨hEntries, hDistinct⟩
  have hRead := ofTokens_of_repeated isHeading isEntries isComma isColumn (by simpa using hRest)
    (hEnds _) isTaken
  refine ⟨tokens, (heading ++ (us ++ [comma])).length, hTokens, ?_, ?_⟩
  · have hName := head?_of_scanned_textFrom (hBackColumns column List.mem_cons_self).name
      isColumn hFrom
    rw [← hAll, List.append_assoc, List.getElem?_append_right (Nat.le_refl _), Nat.sub_self,
      ← List.head?_eq_getElem?, List.head?_append, hName, Option.some_or]
  · rw [Statement.ofText, readTokens_of_ok hTokens, hRead]
    rfl

/-- Without a repeated name the text is read as the table that it was made of. -/
theorem ofText_of_distinct (hTable : IsName table) (hNonempty : columns ≠ [])
    (hColumns : ∀ column ∈ columns, column.WellFormed)
    (hDistinct : (columns.map Column.name).Nodup) :
    Statement.ofText (CreateTable.text ⟨table, columns, []⟩) =
      .ok (.createTable ⟨table, columns, []⟩) := by
  have hWellFormed : CreateTable.WellFormed ⟨table, columns, []⟩ :=
    ⟨hDistinct, hTable, hNonempty, hColumns, nofun⟩
  exact ofText_of_spells ((spells_createTable hWellFormed).imp fun _ => .bare) trivial hDistinct

end

/-! ### Parser and database -/

namespace Database

/-- On a list of columns and on its text the two checks for repeated names have the same outcome, and
without a repeated name the statement that is read does what the list does. -/
theorem repeated_columns_agree {db : Database} {table : String} {columns : List Column}
    (hTable : IsName table) (hNonempty : columns ≠ [])
    (hColumns : ∀ column ∈ columns, column.WellFormed) (hFresh : table ∉ db.tableNames) :
    let sql := CreateTable.text ⟨table, columns, []⟩
    let created := db.apply (createTable table columns)
    (∀ c, (∃ index, Statement.ofText sql = .error (.parse ⟨.duplicateColumn c, index⟩)) ↔
      created.1 = .error (.duplicateColumn table c)) ∧
    (∀ {c index}, Statement.ofText sql = .error (.parse ⟨.duplicateColumn c, index⟩) →
      ∃ front column back tokens, columns = front ++ column :: back ∧
        (front.map Column.name).Nodup ∧ column.name ∈ front.map Column.name ∧ column.name = c ∧
        tokenize sql = .ok tokens ∧ tokens[index]? =
          some ⟨.identifier, c, (CreateTable.textBefore table front).utf8ByteSize⟩) ∧
    ((∃ s, Statement.ofText sql = .ok s) ↔ (columns.map Column.name).Nodup) ∧
    (created.1 = .ok () ↔ (columns.map Column.name).Nodup) ∧
    ∀ {s}, Statement.ofText sql = .ok s → db.apply (execute s) = (.ok 0, created.2) := by
  intro sql created
  have hFind : ¬ (db.find? table).isSome = true := mt mem_tableNames_iff.mpr hFresh
  have hCreated : created = _ := (db.apply_createTable table columns).trans (if_neg hFind)
  cases hRepeated : Column.firstRepeated? columns with
  | none =>
    have hDistinct := Column.firstRepeated?_eq_none_iff.mp hRepeated
    have hText : Statement.ofText sql = _ := ofText_of_distinct hTable hNonempty hColumns hDistinct
    rw [hRepeated] at hCreated
    have hExecute : db.apply (execute (.createTable ⟨table, columns, []⟩)) = (.ok 0, created.2) := by
      rw [execute, apply_bind_ok db hCreated, apply_pure, hCreated]
    rw [hText, hCreated]
    refine ⟨fun c => ?_, ?_, iff_of_true ⟨_, rfl⟩ hDistinct, iff_of_true rfl hDistinct, ?_⟩
    · constructor
      · rintro ⟨_, ⟨⟩⟩
      · rintro ⟨⟩
    · rintro c _ ⟨⟩
    · rintro s ⟨⟩
      rw [hExecute, hCreated]
  | some column =>
    obtain ⟨front, back, rfl, hDistinct, isTaken⟩ :=
      Column.firstRepeated?_eq_some_iff.mp hRepeated
    obtain ⟨tokens, index, hTokens, hToken, hText⟩ :=
      ofText_of_repeated hTable hColumns hDistinct isTaken
    have hNot : ¬ ((front ++ column :: back).map Column.name).Nodup := by
      rw [← Column.firstRepeated?_eq_none_iff, hRepeated]
      exact Option.some_ne_none column
    rw [hRepeated] at hCreated
    rw [hText, hCreated]
    refine ⟨fun c => ?_, ?_, iff_of_false ?_ hNot, iff_of_false ?_ hNot, ?_⟩
    · constructor
      · rintro ⟨_, ⟨⟩⟩
        rfl
      · rintro ⟨⟩
        exact ⟨index, rfl⟩
    · rintro c _ ⟨⟩
      exact ⟨front, column, back, tokens, rfl, hDistinct, isTaken, rfl, hTokens, hToken⟩
    · rintro ⟨_, ⟨⟩⟩
    · rintro ⟨⟩
    · rintro s ⟨⟩

/-- Two names are repeated, and the one that is repeated first had come second. The first two columns
alone make a table. -/
theorem repeated_columns_agree_sample :
    let kept : List Column := [⟨"a", .int, []⟩, ⟨"b", .char (some 3), [.notNull]⟩]
    let columns : List Column := kept ++ [⟨"b", .bool, []⟩, ⟨"a", .date, []⟩]
    let sql := CreateTable.text ⟨"t", columns, []⟩
    sql = "CREATE TABLE t (a INT, b CHAR(3) NOT NULL, b BOOL, a DATE)" ∧
      IsName "t" ∧ (∀ column ∈ columns, column.WellFormed) ∧ "t" ∉ empty.tableNames ∧
      Statement.ofText sql = .error (.parse ⟨.duplicateColumn "b", 14⟩) ∧
      (empty.apply (createTable "t" columns)).1 = .error (.duplicateColumn "t" "b") ∧
      (∃ front column back, columns = front ++ column :: back ∧ column.name = "b" ∧
        column.name ∈ front.map Column.name) ∧
      empty.apply (execute (.createTable ⟨"t", kept, []⟩)) =
        (.ok 0, (empty.apply (createTable "t" kept)).2) := by
  intro kept columns sql
  have hName : IsName "t" := by decide
  have hColumns : ∀ column ∈ columns, column.WellFormed := by decide +kernel
  have hFresh : "t" ∉ empty.tableNames := by decide
  have hText : Statement.ofText sql = .error (.parse ⟨.duplicateColumn "b", 14⟩) := by
    decide +kernel
  have hKept : Statement.ofText (CreateTable.text ⟨"t", kept, []⟩) =
      .ok (.createTable ⟨"t", kept, []⟩) := by
    decide +kernel
  obtain ⟨hAgree, hWhere, -⟩ := repeated_columns_agree hName (by decide) hColumns hFresh
  obtain ⟨front, column, back, -, hSplit, -, isTaken, hColumn, -⟩ := hWhere hText
  have hKeptColumns : ∀ column ∈ kept, column.WellFormed := by decide +kernel
  obtain ⟨-, -, -, -, hExecute⟩ := repeated_columns_agree hName (by decide) hKeptColumns hFresh
  exact ⟨by decide +kernel, hName, hColumns, hFresh, hText, (hAgree "b").mp ⟨14, hText⟩,
    ⟨front, column, back, hSplit, hColumn, isTaken⟩, hExecute hKept⟩

end Database
end SqlStore
