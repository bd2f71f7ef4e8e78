import SqlStore.Proofs.Query.Spelling
import SqlStore.Proofs.Query.WellFormed

/-!
# Texts are read back

The text of a well-formed statement is read as that statement. Part by part, the text of a part
spells the written forms of that part; parentheses make every condition one primary, so the tree that
is read is the one that was written.
-/
namespace SqlStore
open Grammar TokenKind
set_option autoImplicit false

variable {follow : List Char → Prop}

/-! ### Single lexemes -/

theorem spells_name {name : String} (h : IsName name) :
    Spells name.toList (OneOf fun t => t.kind = .identifier ∧ t.lexeme = name) BreaksName := by
  have hStands : ∀ rest, BreaksName rest → TokenKind.identifier.Stands name.toList rest :=
    fun rest hRest => ⟨h, hRest.breaks.ends .identifier _, fun _ => hRest.alone h⟩
  simpa using spells_lexeme hStands

theorem spells_class (kind : TokenKind) {lexeme : String} (h : kind.Class lexeme.toList)
    (hKind : kind ≠ .identifier) :
    Spells lexeme.toList (OneOf fun t => t.kind = kind ∧ t.lexeme = lexeme) Breaks := by
  have hStands : ∀ rest, Breaks rest → kind.Stands lexeme.toList rest :=
    fun rest hRest => hRest.stands h hKind
  simpa using spells_lexeme hStands

theorem isKeyword_spelling (k : Keyword) : Lexeme.IsKeyword k.spelling.toList := by
  have hSpelling : [' '].intercalate k.words = k.spelling.toList := k.collapse_spelling
  have hLengths : ∀ k ∈ Keyword.all, k.words.length = 1 ∨ k.words.length = 2 := by decide +kernel
  rcases hLengths k k.mem_all with hLength | hLength
  · match hWords : k.words, hLength with
    | [word], _ =>
      rw [hWords, List.intercalate_singleton] at hSpelling
      rw [← hSpelling]
      exact .single hWords
  · match hWords : k.words, hLength with
    | [head, tail], _ =>
      rw [hWords, List.intercalate_cons_cons, List.intercalate_singleton] at hSpelling
      rw [← hSpelling]
      exact .compound hWords ⟨by simp, List.all_eq_true.mp (by decide)⟩

theorem spells_keyword (k : Keyword) :
    Spells k.spelling.toList (OneOf fun t => t.isKeyword k = true) Breaks := by
  refine (spells_class .keyword (isKeyword_spelling k) (by decide)).imp ?_
  rintro ts ⟨t, rfl, hKind, hLexeme⟩
  have hText : Keyword.ofText? t.lexeme = some k := by
    rw [hLexeme]
    exact Keyword.ofChars?_eq_some_iff.mpr rfl
  exact ⟨t, rfl, Parser.isKeyword_iff.mpr ⟨hKind, hText⟩⟩

theorem spells_connective {word : String} (h : word.toList ∈ Lexeme.connectiveWords) :
    Spells word.toList (OneOf fun t => t.isConnective word = true) Breaks := by
  refine (spells_class .connective h (by decide)).imp ?_
  rintro ts ⟨t, rfl, hKind, hLexeme⟩
  refine ⟨t, rfl, ?_⟩
  simp [Token.isConnective, hKind, hLexeme, Text.sameLetters]

theorem spells_value {v : Value} (h : v.WellFormed) :
    Spells v.text.toList (OneOf fun t => t.literal? = some v) Breaks := by
  cases v with
  | number digits =>
    refine (spells_class .numberLiteral h (by decide)).imp ?_
    rintro ts ⟨t, rfl, hKind, hLexeme⟩
    exact ⟨t, rfl, by simp [Token.literal?, hKind, hLexeme, Value.text]⟩
  | string content =>
    refine (spells_class .stringLiteral h (by decide)).imp ?_
    rintro ts ⟨t, rfl, hKind, hLexeme⟩
    refine ⟨t, rfl, ?_⟩
    simp [Token.literal?, Token.unquoted, hKind, hLexeme, Value.text, Token.unquote]
  | date content =>
    refine (spells_class .dateLiteral h (by decide)).imp ?_
    rintro ts ⟨t, rfl, hKind, hLexeme⟩
    refine ⟨t, rfl, ?_⟩
    simp [Token.literal?, Token.unquoted, hKind, hLexeme, Value.text, Token.unquote]
  | boolean truth =>
    have hClass : (Value.boolean truth).text.toList ∈ Lexeme.truthWords := by
      cases truth <;> decide
    refine (spells_class .booleanLiteral hClass (by decide)).imp ?_
    rintro ts ⟨t, rfl, hKind, hLexeme⟩
    refine ⟨t, rfl, ?_⟩
    cases truth <;> simp [Token.literal?, hKind, hLexeme, Value.text] <;> decide
  | null =>
    have hClass : Value.null.text.toList ∈ Lexeme.nullWords := by decide
    refine (spells_class .nullLiteral hClass (by decide)).imp ?_
    rintro ts ⟨t, rfl, hKind, -⟩
    exact ⟨t, rfl, by simp [Token.literal?, hKind]⟩

theorem spells_comparator (op : Comparator) :
    Spells op.text.toList
      (OneOf fun t => t.kind = .comparator ∧ Comparator.ofText? t.lexeme = some op) Breaks := by
  have hClass : String.ofList op.text.toList ∈ Lexeme.comparators := by
    cases op <;> decide
  refine (spells_class .comparator hClass (by decide)).imp ?_
  rintro ts ⟨t, rfl, hKind, hLexeme⟩
  exact ⟨t, rfl, hKind, by rw [hLexeme, Comparator.ofText?_text]⟩

theorem spells_size (size : Size) :
    Spells size.text.toList (OneOf fun t => SizeForm t size) Breaks := by
  have hDigits : Lexeme.IsDigits size.text.toList := by
    rw [Size.toList_text]
    exact ⟨Nat.toDigits_ne_nil,
      fun c hc => Nat.isDigit_of_mem_toDigits (by decide) (by decide) hc⟩
  refine (spells_class .numberLiteral (.plain (.whole hDigits)) (by decide)).imp ?_
  rintro ts ⟨t, rfl, hKind, hLexeme⟩
  exact ⟨t, rfl, hKind, by rw [hLexeme, Size.ofText?_text]⟩

/-! ### Conditions -/

theorem spells_operand {operand : Operand} (h : operand.WellFormed) :
    Spells operand.text.toList (OperandForm · operand) BreaksName := by
  cases operand with
  | column name =>
    refine (spells_name h).imp ?_
    rintro ts ⟨t, rfl, hKind, rfl⟩
    exact .column hKind
  | value v =>
    refine ((spells_value h).weaken fun rest hRest => hRest.breaks).imp ?_
    rintro ts ⟨t, rfl, hLiteral⟩
    exact .value hLiteral

theorem spells_comparison {left right : Operand} (op : Comparator) (hLeft : left.WellFormed)
    (hRight : right.WellFormed) :
    Spells (left.text.toList ++ ' ' :: (op.text.toList ++ ' ' :: right.text.toList))
      (ConditionForm .primary · (.comparison left op right)) BreaksName := by
  have hRest := ((spells_comparator op).spaced (spells_operand hRight)).space
  refine ((spells_operand hLeft).append hRest fun rest _ => ?_).imp ?_
  · rw [List.cons_append, List.append_assoc]
    exact breaksName_word _ (by cases op <;> decide)
  · rintro ts ⟨ls, _, rfl, hLs, _, rs, rfl, ⟨t, rfl, hKind, hSign⟩, hRs⟩
    exact .comparison hLs hKind hSign hRs

/-- Two conditions in parentheses with a connective between them. -/
theorem spells_combination {left right : Condition} {word : String}
    (hWord : word.toList ∈ Lexeme.connectiveWords)
    (hLeft : Spells left.text.toList (ConditionForm .primary · left) BreaksName)
    (hRight : Spells right.text.toList (ConditionForm .primary · right) BreaksName) :
    Spells ('(' :: (left.text.toList ++ ' ' :: (word.toList ++ ' ' :: right.text.toList) ++ [')']))
      (fun ts => ∃ opening ls t rs closing, ts = opening :: (ls ++ t :: rs) ++ [closing] ∧
        opening.kind = .parenOpen ∧ ConditionForm .primary ls left ∧ t.isConnective word = true ∧
        ConditionForm .primary rs right ∧ closing.kind = .parenClose) anyText := by
  have hRest := ((spells_connective hWord).spaced hRight).space
  have hInner := hLeft.append hRest fun rest _ => by
    rw [List.cons_append, List.append_assoc]
    have hStarts : ∀ word ∈ Lexeme.connectiveWords, startsApart word = true := by decide
    exact breaksName_word _ (hStarts _ hWord)
  refine (spells_parenthesized hInner fun rest =>
    breaksName_sign _ (by decide) (by decide)).imp ?_
  rintro ts ⟨opening, _, closing, rfl, hOpening, ⟨ls, _, rfl, hLs, _, rs, rfl, ⟨t, rfl, hWord⟩, hRs⟩,
    hClosing⟩
  exact ⟨opening, ls, t, rs, closing, rfl, hOpening, hLs, hWord, hRs, hClosing⟩

theorem spells_condition {condition : Condition} (h : condition.WellFormed) :
    Spells condition.text.toList (ConditionForm .primary · condition) BreaksName := by
  induction condition with
  | comparison left op right =>
    have hText : (Condition.comparison left op right).text.toList =
        left.text.toList ++ ' ' :: (op.text.toList ++ ' ' :: right.text.toList) := by
      simp [Condition.text]
    rw [hText]
    exact spells_comparison op h.1 h.2
  | and left right ihLeft ihRight =>
    have hText : (Condition.and left right).text.toList =
        '(' :: (left.text.toList ++ ' ' :: ("AND".toList ++ ' ' :: right.text.toList) ++ [')']) := by
      simp [Condition.text]
    rw [hText]
    refine ((spells_combination (by decide) (ihLeft h.1) (ihRight h.2)).weaken
      fun _ _ => trivial).imp ?_
    rintro ts ⟨opening, ls, t, rs, closing, rfl, hOpening, hLs, hAnd, hRs, hClosing⟩
    exact .parenthesized hOpening (.conjunction (.and (.primary hLs) hAnd hRs)) hClosing
  | or left right ihLeft ihRight =>
    have hText : (Condition.or left right).text.toList =
        '(' :: (left.text.toList ++ ' ' :: ("OR".toList ++ ' ' :: right.text.toList) ++ [')']) := by
      simp [Condition.text]
    rw [hText]
    refine ((spells_combination (by decide) (ihLeft h.1) (ihRight h.2)).weaken
      fun _ _ => trivial).imp ?_
    rintro ts ⟨opening, ls, t, rs, closing, rfl, hOpening, hLs, hOr, hRs, hClosing⟩
    exact .parenthesized hOpening (.or (.conjunction (.primary hLs)) hOr (.primary hRs)) hClosing

theorem spells_check {condition : Condition} (h : condition.WellFormed) :
    Spells (Constraint.check condition).text.toList (CheckForm · condition) anyText := by
  have hText : (Constraint.check condition).text.toList =
      Keyword.check.spelling.toList ++ ' ' :: ('(' :: (condition.text.toList ++ [')'])) := by
    simp [Constraint.text]
  have hInner := spells_parenthesized (spells_condition h) fun rest =>
    breaksName_sign _ (by decide) (by decide)
  rw [hText]
  refine ((spells_keyword .check).spaced hInner).imp ?_
  rintro ts ⟨_, _, rfl, ⟨check, rfl, isCheck⟩, opening, us, closing, rfl, hOpening, hUs, hClosing⟩
  exact .intro isCheck hOpening (.conjunction (.primary hUs)) hClosing

/-! ### Columns -/

theorem spells_length (length : Option Size) :
    Spells (DataType.char length).sizeText.toList (LengthForm · length) Breaks := by
  cases length with
  | none => exact spells_nil .absent
  | some n =>
    have hText : (DataType.char (some n)).sizeText.toList = '(' :: (n.text.toList ++ [')']) := by
      simp [DataType.sizeText]
    have hSize := spells_parenthesized (spells_size n) fun rest => breaks_cons _ (by decide)
    rw [hText]
    refine (hSize.weaken fun _ _ => trivial).imp ?_
    rintro ts ⟨opening, _, closing, rfl, hOpening, ⟨t, rfl, hSize⟩, hClosing⟩
    exact .sized hOpening hSize hClosing

theorem spells_precision {precision scale : Option Size}
    (h : (DataType.float precision scale).WellFormed) :
    Spells (DataType.float precision scale).sizeText.toList (PrecisionForm · precision scale)
      Breaks := by
  match precision, scale, h with
  | none, none, _ => exact (spells_length none).imp fun _ => .alone
  | some n, none, _ => exact (spells_length (some n)).imp fun _ => .alone
  | none, some m, h => cases h rfl
  | some n, some m, _ =>
    have hText : (DataType.float (some n) (some m)).sizeText.toList =
        '(' :: (n.text.toList ++ ([','] ++ ' ' :: m.text.toList) ++ [')']) := by
      simp [DataType.sizeText]
    have hComma : Spells [','] _ anyText := spells_sign .comma rfl (fun _ => trivial) (by decide)
    have hScale := hComma.append (spells_size m).space fun _ _ => trivial
    have hBoth := (spells_size n).append hScale fun rest _ => breaks_cons _ (by decide)
    rw [hText]
    refine ((spells_parenthesized hBoth fun rest => breaks_cons _ (by decide)).weaken
      fun _ _ => trivial).imp ?_
    rintro ts ⟨opening, _, closing, rfl, hOpening, ⟨_, _, rfl, ⟨first, rfl, hFirst⟩, _, _, rfl,
      ⟨comma, rfl, hComma⟩, ⟨second, rfl, hSecond⟩⟩, hClosing⟩
    exact .scaled hOpening hFirst hComma hSecond hClosing

/-- A keyword with the sizes of its type, which start with a parenthesis if there are any. -/
theorem spells_sized (type : DataType) {form : List Token → Prop}
    (h : Spells type.sizeText.toList form Breaks) :
    Spells type.text.toList (Both (OneOf fun t => t.isKeyword type.keyword = true) form) Breaks := by
  have hText : type.text.toList = type.keyword.spelling.toList ++ type.sizeText.toList := by
    simp [DataType.text]
  have hStart : type.sizeText.toList = [] ∨ ∃ cs, type.sizeText.toList = '(' :: cs := by
    unfold DataType.sizeText
    split <;> simp
  rw [hText]
  refine (spells_keyword _).append h fun rest hRest => ?_
  rcases hStart with hStart | ⟨cs, hStart⟩
  · rwa [hStart]
  · rw [hStart]
    exact breaks_cons _ (by decide)

theorem spells_type {type : DataType} (h : type.WellFormed) :
    Spells type.text.toList (TypeForm · type) Breaks := by
  cases type with
  | bool =>
    refine (spells_keyword .bool).imp ?_
    rintro ts ⟨t, rfl, isKeyword⟩
    exact .bool isKeyword
  | int =>
    refine (spells_keyword .int).imp ?_
    rintro ts ⟨t, rfl, isKeyword⟩
    exact .int isKeyword
  | date =>
    refine (spells_keyword .date).imp ?_
    rintro ts ⟨t, rfl, isKeyword⟩
    exact .date isKeyword
  | char length =>
    refine (spells_sized (.char length) (spells_length length)).imp ?_
    rintro ts ⟨_, us, rfl, ⟨t, rfl, isKeyword⟩, hLength⟩
    exact .char isKeyword hLength
  | varchar length =>
    have hText : (DataType.varchar length).sizeText = (DataType.char length).sizeText := by
      cases length <;> rfl
    refine (spells_sized (.varchar length) (hText ▸ spells_length length)).imp ?_
    rintro ts ⟨_, us, rfl, ⟨t, rfl, isKeyword⟩, hLength⟩
    exact .varchar isKeyword hLength
  | float precision scale =>
    refine (spells_sized (.float precision scale) (spells_precision h)).imp ?_
    rintro ts ⟨_, us, rfl, ⟨t, rfl, isKeyword⟩, hSizes⟩
    exact .float isKeyword hSizes

theorem spells_constraint {constraint : Constraint} (h : constraint.WellFormed) :
    Spells constraint.text.toList (ConstraintForm · constraint) Breaks := by
  cases constraint with
  | notNull =>
    refine (spells_keyword .notNull).imp ?_
    rintro ts ⟨t, rfl, isKeyword⟩
    exact .notNull isKeyword
  | primaryKey =>
    refine (spells_keyword .primaryKey).imp ?_
    rintro ts ⟨t, rfl, isKeyword⟩
    exact .primaryKey isKeyword
  | unique =>
    refine (spells_keyword .unique).imp ?_
    rintro ts ⟨t, rfl, isKeyword⟩
    exact .unique isKeyword
  | default value =>
    have hText : (Constraint.default value).text.toList =
        Keyword.default.spelling.toList ++ ' ' :: value.text.toList := by
      simp [Constraint.text]
    rw [hText]
    refine ((spells_keyword .default).spaced (spells_value h)).imp ?_
    rintro ts ⟨_, _, rfl, ⟨t, rfl, isKeyword⟩, l, rfl, literal⟩
    exact .default isKeyword literal
  | check condition =>
    exact ((spells_check h).weaken fun _ _ => trivial).imp fun _ => .check

theorem Breaks.constraints {rest : List Char} (h : Breaks rest) (constraints : List Constraint) :
    Breaks ((constraints.flatMap fun constraint => ' ' :: constraint.text.toList) ++ rest) := by
  cases constraints with
  | nil => exact h
  | cons constraint constraints => exact breaks_cons _ (by decide)

theorem spells_constraints {constraints : List Constraint}
    (h : ∀ constraint ∈ constraints, constraint.WellFormed) :
    Spells (constraints.flatMap fun constraint => ' ' :: constraint.text.toList)
      (ConstraintsForm · constraints) Breaks := by
  induction constraints with
  | nil => exact spells_nil .nil
  | cons constraint constraints ih =>
    obtain ⟨hFirst, hRest⟩ := List.forall_mem_cons.mp h
    rw [List.flatMap_cons]
    refine ((spells_constraint hFirst).space.append (ih hRest) fun rest hBreaks =>
      hBreaks.constraints constraints).imp ?_
    rintro ts ⟨us, vs, rfl, hForm, hForms⟩
    exact .cons hForm hForms

theorem toList_columnText (column : Column) :
    column.text.toList = column.name.toList ++ ' ' :: (column.type.text.toList ++
      column.constraints.flatMap fun constraint => ' ' :: constraint.text.toList) := by
  rw [Column.text, String.toList_intercalate, List.map_cons, List.map_cons, intercalate_cons]
  simp [List.flatMap_map]

theorem spells_column {column : Column} (h : column.WellFormed) :
    Spells column.text.toList (ColumnForm · column) Breaks := by
  have hRest := (spells_type h.type).append (spells_constraints h.constraints)
    fun rest hBreaks => hBreaks.constraints column.constraints
  have hStarts : ∀ type : DataType, startsApart type.keyword.spelling.toList = true := by
    intro type
    cases type <;> (rw [DataType.keyword]; decide)
  rw [toList_columnText]
  refine ((spells_name h.name).append hRest.space fun rest _ => ?_).imp ?_
  · have hText : column.type.text.toList =
        column.type.keyword.spelling.toList ++ column.type.sizeText.toList := by
      simp [DataType.text]
    rw [List.cons_append, hText, List.append_assoc, List.append_assoc]
    exact breaksName_word _ (hStarts column.type)
  · rintro ts ⟨_, _, rfl, ⟨name, rfl, isName, hName⟩, us, vs, rfl, hType, hConstraints⟩
    have hColumn := ColumnForm.intro isName hType hConstraints
    rwa [hName] at hColumn

/-! ### Statements -/

/-- Two keywords, the name of a table and an opening parenthesis. -/
theorem spells_heading (first second : Keyword) {name : String} (h : IsName name) :
    Spells (first.spelling.toList ++ ' ' :: (second.spelling.toList ++ ' ' ::
        (name.toList ++ [' ', '('])))
      (fun ts => ∃ a b t opening, ts = [a, b, t, opening] ∧ a.isKeyword first = true ∧
        b.isKeyword second = true ∧ t.kind = .identifier ∧ t.lexeme = name ∧
        opening.kind = .parenOpen)
      anyText := by
  have hOpen : Spells ['('] _ anyText :=
    spells_sign .parenOpen rfl (fun _ => trivial) (by decide)
  have hTable := (spells_name h).append hOpen.space
    fun rest _ => breaksName_space rest (by decide) (by decide) (by decide)
  refine ((spells_keyword first).spaced ((spells_keyword second).spaced hTable)).imp ?_
  rintro ts ⟨_, _, rfl, ⟨a, rfl, hFirst⟩, _, _, rfl, ⟨b, rfl, hSecond⟩, _, _, rfl,
    ⟨t, rfl, hKind, hName⟩, opening, rfl, hOpening⟩
  exact ⟨a, b, t, opening, rfl, hFirst, hSecond, hKind, hName, hOpening⟩

/-- Two keywords, the name of a table and a list in parentheses. -/
theorem spells_header (first second : Keyword) {name : String} (h : IsName name)
    {inner : List Char} {form : List Token → Prop} (hInner : Spells inner form follow)
    (hFollow : ∀ rest, follow (')' :: rest)) :
    Spells (first.spelling.toList ++ ' ' :: (second.spelling.toList ++ ' ' ::
        (name.toList ++ ' ' :: '(' :: (inner ++ [')']))))
      (fun ts => ∃ a b t opening us closing, ts = a :: b :: t :: opening :: us ++ [closing] ∧
        a.isKeyword first = true ∧ b.isKeyword second = true ∧ t.kind = .identifier ∧
        t.lexeme = name ∧ opening.kind = .parenOpen ∧ form us ∧ closing.kind = .parenClose)
      anyText := by
  have hClose : Spells [')'] _ anyText :=
    spells_sign .parenClose rfl (fun _ => trivial) (by decide)
  have hList := hInner.append hClose fun rest _ => hFollow rest
  have hText : first.spelling.toList ++ ' ' :: (second.spelling.toList ++ ' ' ::
      (name.toList ++ ' ' :: '(' :: (inner ++ [')']))) =
        (first.spelling.toList ++ ' ' :: (second.spelling.toList ++ ' ' ::
          (name.toList ++ [' ', '(']))) ++ (inner ++ [')']) := by
    simp
  rw [hText]
  refine ((spells_heading first second h).append hList fun _ _ => trivial).imp ?_
  rintro ts ⟨_, _, rfl, ⟨a, b, t, opening, rfl, hFirst, hSecond, hKind, hName, hOpening⟩,
    us, _, rfl, hUs, closing, rfl, hClosing⟩
  exact ⟨a, b, t, opening, us, closing, rfl, hFirst, hSecond, hKind, hName, hOpening, hUs, hClosing⟩

theorem spells_entries {columns : List Column} {checks : List Condition} (hNonempty : columns ≠ [])
    (hColumns : ∀ column ∈ columns, column.WellFormed)
    (hChecks : ∀ check ∈ checks, check.WellFormed) :
    Spells (", ".intercalate (columns.map Column.text ++
      checks.map fun check => (Constraint.check check).text)).toList
      (EntriesForm · columns checks) Breaks := by
  match columns, hNonempty with
  | column :: columns, _ =>
    obtain ⟨hFirst, hColumns⟩ := List.forall_mem_cons.mp hColumns
    have hComma : ∀ rest, Breaks (',' :: rest) := fun rest => breaks_cons rest (by decide)
    have hAllColumns : Spells _ (EntriesForm · ([column] ++ columns) []) Breaks :=
      spells_items (fun columns ts => EntriesForm ts columns [])
        (fun _ _ _ _ _ hFront isComma hColumn => .column hFront isComma hColumn) hComma
        ((spells_column hFirst).imp fun _ => .first) fun column h => spells_column (hColumns column h)
    have hAll : Spells _ (EntriesForm · ([column] ++ columns) ([] ++ checks)) Breaks :=
      spells_items (fun checks ts => EntriesForm ts ([column] ++ columns) checks)
        (fun _ _ _ _ _ hFront isComma hCheck => .check hFront isComma hCheck) hComma hAllColumns
        fun check h => (spells_check (hChecks check h)).weaken fun _ _ => trivial
    simpa [String.toList_intercalate, intercalate_cons, List.flatMap_map] using hAll

theorem spells_list {α : Type} {print : α → String} {item : List Token → α → Prop} {items : List α}
    (hNonempty : items ≠ []) (hItems : ∀ a ∈ items, Spells (print a).toList (item · a) follow)
    (hFollow : ∀ rest, follow (',' :: rest)) :
    Spells (", ".intercalate (items.map print)).toList (ListForm item · items) follow := by
  match items, hNonempty with
  | a :: items, _ =>
    obtain ⟨hFirst, hItems⟩ := List.forall_mem_cons.mp hItems
    have hAll : Spells _ (ListForm item · ([a] ++ items)) follow :=
      spells_items (fun items ts => ListForm item ts items)
        (fun _ _ _ _ _ hFront isComma hItem => .append hFront isComma hItem) hFollow
        (hFirst.imp fun _ => .single) hItems
    simpa [String.toList_intercalate, intercalate_cons, List.flatMap_map] using hAll

theorem spells_row {row : Row} (hNonempty : row ≠ []) (h : ∀ v ∈ row, v.WellFormed) :
    Spells (InsertInto.rowText row).toList (RowForm · row) anyText := by
  have hText : (InsertInto.rowText row).toList =
      '(' :: ((", ".intercalate (row.map Value.text)).toList ++ [')']) := by
    simp [InsertInto.rowText]
  have hValues : ∀ v ∈ row, Spells v.text.toList (LiteralForm · v) Breaks := by
    intro v hv
    refine (spells_value (h v hv)).imp ?_
    rintro ts ⟨t, rfl, hLiteral⟩
    exact .intro hLiteral
  have hList := spells_list hNonempty hValues fun rest => breaks_cons rest (by decide)
  rw [hText]
  refine (spells_parenthesized hList fun rest => breaks_cons rest (by decide)).imp ?_
  rintro ts ⟨opening, us, closing, rfl, hOpening, hUs, hClosing⟩
  exact .intro hOpening hUs hClosing

theorem spells_names {names : List String} (hNonempty : names ≠ []) (h : ∀ name ∈ names, IsName name) :
    Spells (", ".intercalate names).toList (ListForm NameForm · names) BreaksName := by
  have hNames : ∀ name ∈ names, Spells (id name).toList (NameForm · name) BreaksName := by
    intro name hName
    refine (spells_name (h name hName)).imp ?_
    rintro ts ⟨t, rfl, hKind, rfl⟩
    exact .intro hKind
  have hList := spells_list hNonempty hNames fun rest =>
    breaksName_sign rest (by decide) (by decide)
  rwa [List.map_id] at hList

theorem spells_createTable {statement : CreateTable} (h : statement.WellFormed) :
    Spells statement.text.toList (BodyForm · (.createTable statement)) anyText := by
  have hText : statement.text.toList = "CREATE".toList ++ ' ' ::
      ("TABLE".toList ++ ' ' :: (statement.table.toList ++ ' ' :: '(' ::
        ((", ".intercalate (statement.columns.map Column.text ++
          statement.checks.map fun check => (Constraint.check check).text)).toList ++ [')']))) := by
    have hStart : "CREATE TABLE ".toList = "CREATE".toList ++ ' ' :: ("TABLE".toList ++ [' ']) := rfl
    have hOpen : " (".toList = [' ', '('] := rfl
    have hClose : ")".toList = [')'] := rfl
    unfold CreateTable.text
    simp only [String.toList_append, hStart, hOpen, hClose, List.append_assoc, List.cons_append,
      List.nil_append]
  have hEntries := spells_entries h.nonempty h.columns h.checks
  rw [hText]
  refine (spells_header .create .table h.table hEntries fun rest =>
    breaks_cons rest (by decide)).imp ?_
  rintro ts ⟨create, table, name, opening, us, closing, rfl, isCreate, isTable, isName, hName,
    hOpening, hUs, hClosing⟩
  have hBody := BodyForm.createTable isCreate isTable isName hOpening hUs hClosing
  rwa [hName] at hBody

theorem spells_insertInto {statement : InsertInto} (h : statement.WellFormed) :
    Spells statement.text.toList (BodyForm · (.insertInto statement)) anyText := by
  have hText : statement.text.toList = ("INSERT".toList ++ ' ' ::
      ("INTO".toList ++ ' ' :: (statement.table.toList ++ ' ' :: '(' ::
        ((", ".intercalate statement.columns).toList ++ [')'])))) ++ ' ' ::
      ("VALUES".toList ++ ' ' ::
        (", ".intercalate (statement.rows.map InsertInto.rowText)).toList) := by
    have hStart : "INSERT INTO ".toList = "INSERT".toList ++ ' ' :: ("INTO".toList ++ [' ']) := rfl
    have hOpen : " (".toList = [' ', '('] := rfl
    have hValues : ") VALUES ".toList = ')' :: ' ' :: ("VALUES".toList ++ [' ']) := rfl
    unfold InsertInto.text
    simp only [String.toList_append, hStart, hOpen, hValues, List.append_assoc, List.cons_append,
      List.nil_append]
  have hRow : ∀ row ∈ statement.rows,
      Spells (InsertInto.rowText row).toList (RowForm · row) anyText := by
    intro row hRow
    refine spells_row ?_ (h.values row hRow)
    rintro rfl
    exact h.columnsNonempty (List.eq_nil_of_length_eq_zero (h.regular.2 [] hRow).symm)
  have hRows := spells_list h.rowsNonempty hRow fun _ => trivial
  have hHeader := spells_header .insert .into h.table (spells_names h.columnsNonempty h.columns)
    fun rest => breaksName_sign rest (by decide) (by decide)
  rw [hText]
  refine (hHeader.append ((spells_keyword .values).spaced hRows).space fun _ _ => trivial).imp ?_
  rintro ts ⟨_, _, rfl, ⟨insert, into, name, opening, us, closing, rfl, isInsert, isInto, isName, hName,
    hOpening, hUs, hClosing⟩, _, vs, rfl, ⟨values, rfl, isValues⟩, hVs⟩
  have hBody := BodyForm.insertInto isInsert isInto isName hOpening hUs hClosing isValues hVs
  rw [hName] at hBody
  simpa using hBody

theorem spells_statement {s : Statement} (h : s.WellFormed) :
    Spells s.text.toList (BodyForm · s) anyText := by
  cases s with
  | createTable statement => exact spells_createTable h
  | insertInto statement => exact spells_insertInto h

theorem regular_of_wellFormed {s : Statement} (h : s.WellFormed) : s.Regular := by
  cases s with
  | createTable statement => exact h.regular
  | insertInto statement => exact h.regular

theorem ofText_of_spells {s : Statement} {text : String} {follow : List Char → Prop}
    (h : Spells text.toList (StatementForm · s) follow) (hFollow : follow []) (hRegular : s.Regular) :
    Statement.ofText text = .ok s := by
  obtain ⟨ts, hForm, hScanned⟩ := h 0 [] [] hFollow .done
  rw [List.append_nil, List.append_nil] at hScanned
  refine readTokens_eq_ok_iff.mpr ⟨ts, hScanned, Parser.ofTokens_of_form ?_⟩
  rw [rest_ofTokens hScanned]
  exact ⟨hForm, hRegular⟩

/-- What is written of a well-formed statement is read as that statement, with a terminator or
without. -/
theorem ofText_text {s : Statement} (h : s.WellFormed) :
    Statement.ofText s.text = .ok s ∧ Statement.ofText (s.text ++ ";") = .ok s := by
  have hBody := spells_statement h
  have hTerminator : Spells [';'] _ anyText :=
    spells_sign .terminator rfl (fun _ => trivial) (by decide)
  constructor
  · exact ofText_of_spells (hBody.imp fun _ => .bare) trivial (regular_of_wellFormed h)
  · have hText : (s.text ++ ";").toList = s.text.toList ++ [';'] := by
      simp
    refine @ofText_of_spells s _ anyText ?_ trivial (regular_of_wellFormed h)
    rw [hText]
    refine (hBody.append hTerminator fun _ _ => trivial).imp ?_
    rintro ts ⟨us, _, rfl, hUs, t, rfl, isTerminator⟩
    exact .terminated hUs isTerminator

/-- A name may be the first word of a keyword. -/
theorem ofText_text_sample :
    Statement.ofText "CREATE TABLE t (NOT FLOAT(5, 2) NOT NULL, CHECK ((NOT < -1.5 OR NOT = 'é')))" =
      .ok (.createTable ⟨"t", [⟨"NOT", .float (some 5) (some 2), [.notNull]⟩],
        [.or (.comparison (.column "NOT") .lt (.value (.number "-1.5")))
          (.comparison (.column "NOT") .eq (.value (.string "é")))]⟩) := by
  have hText : "CREATE TABLE t (NOT FLOAT(5, 2) NOT NULL, CHECK ((NOT < -1.5 OR NOT = 'é')))" =
      Statement.text (.createTable ⟨"t", [⟨"NOT", .float (some 5) (some 2), [.notNull]⟩],
        [.or (.comparison (.column "NOT") .lt (.value (.number "-1.5")))
          (.comparison (.column "NOT") .eq (.value (.string "é")))]⟩) := by
    decide +kernel
  rw [hText]
  exact (ofText_text (by decide +kernel)).1

end SqlStore
