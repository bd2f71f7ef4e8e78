import SqlStore.Proofs.Parser.Script
import SqlStore.Proofs.Token.Scanned
import SqlStore.Query
import SqlStore.Statement.WellFormed

/-!
# Statements that come from texts

Scanned tokens have lexemes of their classes, and the written forms of the grammar hand these on to
the parts of a statement. So each form over such tokens has a well-formed value, and every statement
that is read from a text is well-formed.
-/
namespace SqlStore
open Grammar
set_option autoImplicit false

/-! ### Deciding -/

instance : (v : Value) → Decidable v.WellFormed
  | .number digits => inferInstanceAs (Decidable (Lexeme.IsNumber (Value.number digits).text.toList))
  | .string content => inferInstanceAs (Decidable (Lexeme.IsString (Value.string content).text.toList))
  | .date content => inferInstanceAs (Decidable (Lexeme.IsDate (Value.date content).text.toList))
  | .boolean _ => isTrue trivial
  | .null => isTrue trivial

instance : (operand : Operand) → Decidable operand.WellFormed
  | .column name => inferInstanceAs (Decidable (IsName name))
  | .value v => inferInstanceAs (Decidable v.WellFormed)

instance Condition.decidableWellFormed : (condition : Condition) → Decidable condition.WellFormed
  | .comparison left _ right => inferInstanceAs (Decidable (left.WellFormed ∧ right.WellFormed))
  | .and left right | .or left right =>
    have := decidableWellFormed left
    have := decidableWellFormed right
    inferInstanceAs (Decidable (left.WellFormed ∧ right.WellFormed))

instance : (type : DataType) → Decidable type.WellFormed
  | .float precision scale =>
    inferInstanceAs (Decidable (scale.isSome = true → precision.isSome = true))
  | .bool | .int | .date | .char _ | .varchar _ => isTrue trivial

instance : (constraint : Constraint) → Decidable constraint.WellFormed
  | .default v => inferInstanceAs (Decidable v.WellFormed)
  | .check condition => inferInstanceAs (Decidable condition.WellFormed)
  | .notNull | .primaryKey | .unique => isTrue trivial

instance (column : Column) : Decidable column.WellFormed :=
  decidable_of_iff (IsName column.name ∧ column.type.WellFormed ∧
      ∀ constraint ∈ column.constraints, constraint.WellFormed)
    ⟨fun ⟨hName, hType, hConstraints⟩ => ⟨hName, hType, hConstraints⟩,
      fun h => ⟨h.name, h.type, h.constraints⟩⟩

instance (statement : CreateTable) : Decidable statement.WellFormed :=
  decidable_of_iff ((statement.columns.map Column.name).Nodup ∧ IsName statement.table ∧
      statement.columns ≠ [] ∧ (∀ column ∈ statement.columns, column.WellFormed) ∧
      ∀ check ∈ statement.checks, check.WellFormed)
    ⟨fun ⟨hRegular, hTable, hNonempty, hColumns, hChecks⟩ =>
        ⟨hRegular, hTable, hNonempty, hColumns, hChecks⟩,
      fun h => ⟨h.regular, h.table, h.nonempty, h.columns, h.checks⟩⟩

instance (statement : InsertInto) : Decidable statement.WellFormed :=
  decidable_of_iff ((statement.columns.Nodup ∧
        ∀ row ∈ statement.rows, row.length = statement.columns.length) ∧
      IsName statement.table ∧ statement.columns ≠ [] ∧
      (∀ column ∈ statement.columns, IsName column) ∧ statement.rows ≠ [] ∧
      ∀ row ∈ statement.rows, ∀ v ∈ row, v.WellFormed)
    ⟨fun ⟨hRegular, hTable, hNonempty, hColumns, hRows, hValues⟩ =>
        ⟨hRegular, hTable, hNonempty, hColumns, hRows, hValues⟩,
      fun h => ⟨h.regular, h.table, h.columnsNonempty, h.columns, h.rowsNonempty, h.values⟩⟩

instance : (s : Statement) → Decidable s.WellFormed
  | .createTable statement => inferInstanceAs (Decidable statement.WellFormed)
  | .insertInto statement => inferInstanceAs (Decidable statement.WellFormed)

/-! ### Forms over scanned tokens -/

/-- Every lexeme is of the class of its kind. -/
def Classified (ts : List Token) : Prop :=
  ∀ t ∈ ts, t.kind.Class t.lexeme.toList

@[simp] theorem classified_cons {t : Token} {ts : List Token} :
    Classified (t :: ts) ↔ t.kind.Class t.lexeme.toList ∧ Classified ts := by
  simp [Classified]

@[simp] theorem classified_append {ts us : List Token} :
    Classified (ts ++ us) ↔ Classified ts ∧ Classified us := by
  simp [Classified, or_imp, forall_and]

variable {ts : List Token}

theorem isName_of_class {t : Token} (h : t.kind.Class t.lexeme.toList)
    (hKind : t.kind = .identifier) : IsName t.lexeme := by
  rwa [hKind] at h

theorem toList_quoted (content : String) :
    ("'" ++ content ++ "'").toList = '\'' :: (content.toList ++ ['\'']) := by
  simp

theorem unquoted_of_isQuoted {t : Token} (h : Lexeme.IsQuoted t.lexeme.toList) :
    ("'" ++ String.ofList (Token.unquote t.lexeme.toList) ++ "'").toList = t.lexeme.toList := by
  obtain ⟨body, hBody, -⟩ := h
  rw [hBody, Token.unquote_quoted, toList_quoted, String.toList_ofList]

theorem value_wellFormed {t : Token} {v : Value} (hClass : t.kind.Class t.lexeme.toList)
    (h : t.literal? = some v) : v.WellFormed := by
  unfold Token.literal? at h
  split at h
  case h_1 hKind =>
    rw [hKind] at hClass
    cases h
    exact hClass
  case h_2 hKind =>
    rw [hKind] at hClass
    cases h
    have hQuoted := @TokenKind.shape_of_class .stringLiteral _ hClass
    simp only [Value.WellFormed, Value.text, Token.unquoted, hKind, unquoted_of_isQuoted hQuoted]
    exact hClass
  case h_3 hKind =>
    rw [hKind] at hClass
    cases h
    have hQuoted := TokenKind.isQuoted_of_isDate hClass
    simp only [Value.WellFormed, Value.text, Token.unquoted, hKind, unquoted_of_isQuoted hQuoted]
    exact hClass
  case h_4 =>
    cases h
    trivial
  case h_5 =>
    cases h
    trivial
  case h_6 => cases h

theorem operand_wellFormed {operand : Operand} (h : OperandForm ts operand)
    (hClass : Classified ts) : operand.WellFormed := by
  cases h with
  | column kind => exact isName_of_class (classified_cons.mp hClass).1 kind
  | value literal => exact value_wellFormed (classified_cons.mp hClass).1 literal

theorem condition_wellFormed {level : Level} {condition : Condition}
    (h : ConditionForm level ts condition) (hClass : Classified ts) : condition.WellFormed := by
  induction h with
  | comparison leftForm kind sign rightForm =>
    simp only [classified_append, classified_cons] at hClass
    exact ⟨operand_wellFormed leftForm hClass.1, operand_wellFormed rightForm hClass.2.2⟩
  | parenthesized isOpening form isClosing ih =>
    simp only [List.cons_append, classified_append, classified_cons] at hClass
    exact ih hClass.2.1
  | primary form ih => exact ih hClass
  | conjunction form ih => exact ih hClass
  | and leftForm isAnd rightForm ihLeft ihRight =>
    simp only [classified_append, classified_cons] at hClass
    exact ⟨ihLeft hClass.1, ihRight hClass.2.2⟩
  | or leftForm isOr rightForm ihLeft ihRight =>
    simp only [classified_append, classified_cons] at hClass
    exact ⟨ihLeft hClass.1, ihRight hClass.2.2⟩

theorem check_wellFormed {condition : Condition} (h : CheckForm ts condition)
    (hClass : Classified ts) : condition.WellFormed := by
  cases h with
  | intro isCheck isOpening form isClosing =>
    simp only [List.cons_append, classified_append, classified_cons] at hClass
    exact condition_wellFormed form hClass.2.2.1

theorem type_wellFormed {type : DataType} (h : TypeForm ts type) : type.WellFormed := by
  cases h with
  | float isKeyword form =>
    cases form with
    | alone => exact nofun
    | scaled => exact fun _ => rfl
  | _ => trivial

theorem constraint_wellFormed {constraint : Constraint} (h : ConstraintForm ts constraint)
    (hClass : Classified ts) : constraint.WellFormed := by
  cases h with
  | default isKeyword literal =>
    simp only [classified_cons] at hClass
    exact value_wellFormed hClass.2.1 literal
  | check form => exact check_wellFormed form hClass
  | _ => trivial

theorem constraints_wellFormed {constraints : List Constraint} (h : ConstraintsForm ts constraints)
    (hClass : Classified ts) : ∀ constraint ∈ constraints, constraint.WellFormed := by
  induction h with
  | nil => simp
  | cons form rest ih =>
    rw [classified_append] at hClass
    exact List.forall_mem_cons.mpr ⟨constraint_wellFormed form hClass.1, ih hClass.2⟩

theorem column_wellFormed {column : Column} (h : ColumnForm ts column) (hClass : Classified ts) :
    column.WellFormed := by
  cases h with
  | intro isName typeForm constraintsForm =>
    simp only [List.cons_append, classified_append, classified_cons] at hClass
    exact ⟨isName_of_class hClass.1 isName, type_wellFormed typeForm,
      constraints_wellFormed constraintsForm hClass.2.2⟩

theorem entries_wellFormed {columns : List Column} {checks : List Condition}
    (h : EntriesForm ts columns checks) (hClass : Classified ts) :
    columns ≠ [] ∧ (∀ column ∈ columns, column.WellFormed) ∧ ∀ check ∈ checks, check.WellFormed := by
  induction h with
  | first form => simpa using column_wellFormed form hClass
  | column entries isComma form ih =>
    simp only [classified_append, classified_cons] at hClass
    obtain ⟨-, hColumns, hChecks⟩ := ih hClass.1
    refine ⟨by simp, ?_, hChecks⟩
    rw [List.forall_mem_append]
    exact ⟨hColumns, by simpa using column_wellFormed form hClass.2.2⟩
  | check entries isComma form ih =>
    simp only [classified_append, classified_cons] at hClass
    obtain ⟨hNonempty, hColumns, hChecks⟩ := ih hClass.1
    refine ⟨hNonempty, hColumns, ?_⟩
    rw [List.forall_mem_append]
    exact ⟨hChecks, by simpa using check_wellFormed form hClass.2.2⟩

theorem list_wellFormed {α : Type} {item : List Token → α → Prop} {good : α → Prop}
    {as : List α} (h : ListForm item ts as) (hItem : ∀ ts a, item ts a → Classified ts → good a)
    (hClass : Classified ts) : as ≠ [] ∧ ∀ a ∈ as, good a := by
  induction h with
  | single form => simpa using hItem _ _ form hClass
  | append front isComma form ih =>
    simp only [classified_append, classified_cons] at hClass
    refine ⟨by simp, ?_⟩
    rw [List.forall_mem_append]
    exact ⟨(ih hClass.1).2, by simpa using hItem _ _ form hClass.2.2⟩

theorem name_wellFormed {name : String} (h : NameForm ts name) (hClass : Classified ts) :
    IsName name := by
  cases h with
  | intro kind => exact isName_of_class (classified_cons.mp hClass).1 kind

theorem literal_wellFormed {v : Value} (h : LiteralForm ts v) (hClass : Classified ts) :
    v.WellFormed := by
  cases h with
  | intro literal => exact value_wellFormed (classified_cons.mp hClass).1 literal

theorem row_wellFormed {row : Row} (h : RowForm ts row) (hClass : Classified ts) :
    ∀ v ∈ row, v.WellFormed := by
  cases h with
  | intro isOpening values isClosing =>
    simp only [List.cons_append, classified_append, classified_cons] at hClass
    exact (list_wellFormed values (fun _ _ => literal_wellFormed) hClass.2.1).2

theorem body_wellFormed {s : Statement} (h : BodyForm ts s) (hRegular : s.Regular)
    (hClass : Classified ts) : s.WellFormed := by
  cases h with
  | createTable isCreate isTable isName isOpening entries isClosing =>
    simp only [List.cons_append, classified_append, classified_cons] at hClass
    obtain ⟨-, -, hName, -, hEntries, -⟩ := hClass
    obtain ⟨hNonempty, hColumns, hChecks⟩ := entries_wellFormed entries hEntries
    exact ⟨hRegular, isName_of_class hName isName, hNonempty, hColumns, hChecks⟩
  | insertInto isInsert isInto isName isOpening names isClosing isValues rowForms =>
    simp only [List.cons_append, classified_append, classified_cons] at hClass
    obtain ⟨-, -, hName, -, hNames, -, -, hRows⟩ := hClass
    obtain ⟨hNamesNonempty, hNames⟩ := list_wellFormed names (fun _ _ => name_wellFormed) hNames
    obtain ⟨hRowsNonempty, hRows⟩ := list_wellFormed rowForms (fun _ _ => row_wellFormed) hRows
    exact ⟨hRegular, isName_of_class hName isName, hNamesNonempty, hNames, hRowsNonempty, hRows⟩

theorem regular_wellFormed {s : Statement} (h : Parser.RegularForm ts s) (hClass : Classified ts) :
    s.WellFormed := by
  obtain ⟨hForm, hRegular⟩ := h
  cases hForm with
  | bare body => exact body_wellFormed body hRegular hClass
  | terminated body isTerminator =>
    rw [classified_append] at hClass
    exact body_wellFormed body hRegular hClass.1

/-- Parsing starts with the tokens that the scan has found. -/
theorem rest_ofTokens {offset finish : Nat} {cs : List Char} (h : Scanned offset cs ts) :
    (Parser.ofTokens (ts ++ [Token.endAt finish])).rest = ts := by
  have hAll : ∀ t ∈ ts, (!Parser.isEnd t) = true := by
    intro t ht
    simpa [Parser.isEnd] using h.kind_ne_endOfInput ht
  rw [Parser.ofTokens, List.takeWhile_append_of_pos hAll]
  simp [Parser.isEnd, Token.endAt]

theorem readTokens_eq_ok_iff {α : Type} {read : List Token → Except ParseError α} {sql : String}
    {a : α} :
    readTokens read sql = .ok a ↔
      ∃ tokens, Scanned 0 sql.toList tokens ∧
        read (tokens ++ [Token.endAt sql.utf8ByteSize]) = .ok a := by
  rw [readTokens]
  constructor
  · intro h
    cases hTokens : tokenize sql with
    | error e =>
      rw [hTokens] at h
      cases h
    | ok all =>
      rw [hTokens] at h
      obtain ⟨tokens, hScanned, rfl⟩ := tokenize_iff.mp hTokens
      refine ⟨tokens, hScanned, ?_⟩
      dsimp only [Except.mapError, bind, Except.bind] at h
      split at h
      · cases h
      · rename_i hRead
        cases h
        exact hRead
  · rintro ⟨tokens, hScanned, hRead⟩
    rw [tokenize_iff.mpr ⟨tokens, hScanned, rfl⟩]
    dsimp only [Except.mapError, bind, Except.bind]
    rw [hRead]

/-- This holds for a text that is read as one statement, and for each statement of a script. -/
theorem wellFormed_of_text {sql : String} {s : Statement}
    (h : Statement.ofText sql = .ok s ∨ ∃ script, Script.ofText sql = .ok script ∧ s ∈ script) :
    s.WellFormed := by
  rcases h with h | ⟨script, h, hs⟩
  · obtain ⟨tokens, hScanned, hRead⟩ := readTokens_eq_ok_iff.mp h
    have hForm := Parser.form_of_ofTokens hRead
    rw [rest_ofTokens hScanned] at hForm
    exact regular_wellFormed hForm fun t ht => hScanned.class_of_mem ht
  · obtain ⟨tokens, hScanned, hRead⟩ := readTokens_eq_ok_iff.mp h
    have hScript := Parser.scriptForm_of_ofTokens hRead
    rw [rest_ofTokens hScanned] at hScript
    obtain ⟨us, hSubset, hForm⟩ := Parser.regularForm_of_mem hScript hs
    exact regular_wellFormed hForm fun t ht => hScanned.class_of_mem (hSubset ht)

theorem wellFormed_of_text_insert :
    (Statement.insertInto ⟨"t", ["a"], [[.date "2024-01-31"]]⟩).WellFormed ∧
      (Statement.insertInto ⟨"t", ["a", "b"], [[.string "é", .number "-1.5"]]⟩).WellFormed :=
  ⟨@wellFormed_of_text "INSERT INTO t (a) VALUES ('2024-01-31')" _ (.inl (by decide +kernel)),
    @wellFormed_of_text "; INSERT INTO t (a, b) VALUES ('é', -1.5);" _
      (.inr ⟨_, by decide +kernel, List.mem_singleton_self _⟩)⟩

end SqlStore
