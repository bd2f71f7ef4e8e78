import SqlStore.Parser.Column
import SqlStore.Proofs.Parser.Condition

/-!
# Reading columns

The readers of types, constraints and columns read their forms. A type without sizes must not stand
before a parenthesis, and a column must not stand before a keyword, which would be one more
constraint.
-/
namespace SqlStore.Parser
open Grammar
set_option autoImplicit false

variable {limit : Nat} {follow : Token → Prop}

theorem isKeyword_iff {t : Token} {k : Keyword} :
    t.isKeyword k = true ↔ t.kind = .keyword ∧ Keyword.ofText? t.lexeme = some k := by
  simp [Token.isKeyword]

/-! ### Sizes -/

def sizeOf? (t : Token) : Option Size :=
  if t.kind = .numberLiteral then Size.ofText? t.lexeme else none

theorem sizeOf?_eq_some_iff {t : Token} {n : Size} : sizeOf? t = some n ↔ SizeForm t n := by
  rw [sizeOf?, Option.ite_none_right_eq_some]
  exact ⟨fun ⟨hKind, hValue⟩ => ⟨hKind, hValue⟩, fun ⟨hKind, hValue⟩ => ⟨hKind, hValue⟩⟩

theorem reads_size (type : DataType) : Reads limit (size type) (OneToken sizeOf?) follow := by
  apply reads_oneToken
  · intro t n h
    obtain ⟨hKind, -⟩ := Option.ite_none_right_eq_some.mp h
    simp [hKind]
  · intro parser n h
    obtain ⟨hKind, hValue⟩ := Option.ite_none_right_eq_some.mp h
    have hConsume := run_consume parser .numberLiteral .size
    rw [if_pos hKind] at hConsume
    rw [size, run_bind_ok parser (run_index parser), run_bind_ok parser hConsume]
    simp [hValue]
  · intro parser h
    rw [size, run_bind_ok parser (run_index parser)]
    have hConsume := run_consume parser .numberLiteral .size
    by_cases hKind : parser.current.kind = .numberLiteral
    · rw [sizeOf?, if_pos hKind] at h
      rw [if_pos hKind] at hConsume
      rw [run_bind_ok parser hConsume]
      simp only [h]
      exact ⟨_, _, rfl⟩
    · rw [if_neg hKind] at hConsume
      exact ⟨_, _, run_bind_error parser hConsume⟩

/-- What may stand between the first size and the closing parenthesis. -/
def SecondSizeForm (type : DataType) (ts : List Token) (second : Option Size) : Prop :=
  (∃ comma t n, ts = [comma, t] ∧ 2 ≤ type.maxSizes ∧ comma.kind = .comma ∧ SizeForm t n ∧
    second = some n) ∨ Nothing none ts second

theorem reads_secondSize (type : DataType) :
    Reads limit (secondSize type) (SecondSizeForm type) (fun t => t.kind ≠ .comma) := by
  unfold secondSize
  split
  · rename_i hMax
    refine (reads_pure none).congr fun ts second => ?_
    constructor
    · exact .inr
    · rintro (⟨comma, t, n, rfl, hTwo, -⟩ | h)
      · omega
      · exact h
  · rename_i hMax
    have hChoice : Reads limit _ _ (fun t => t.kind ≠ .comma) :=
      reads_stepChoice (looks_check (by decide : TokenKind.comma ≠ .endOfInput))
        ((reads_size type).map some) (reads_pure none) (by
          rintro ts second t ⟨rfl, -⟩ hNext
          simpa using hNext)
    refine hChoice.congr fun ts second => or_congr_left ?_
    constructor
    · rintro ⟨comma, _, rfl, hComma, n, ⟨t, rfl, hn⟩, rfl⟩
      exact ⟨comma, t, n, rfl, by omega, by simpa using hComma, sizeOf?_eq_some_iff.mp hn, rfl⟩
    · rintro ⟨comma, t, n, rfl, -, hComma, hn, rfl⟩
      exact ⟨comma, [t], rfl, by simpa using hComma, n, ⟨t, rfl, sizeOf?_eq_some_iff.mpr hn⟩, rfl⟩

/-- The sizes between the parentheses. -/
def InnerSizesForm (type : DataType) (ts : List Token) (sized : DataType) : Prop :=
  ∃ t us first second, ts = t :: us ∧ SizeForm t first ∧ SecondSizeForm type us second ∧
    sized = type.sized first second

def SizesForm (type : DataType) : List Token → DataType → Prop :=
  Parenthesized (InnerSizesForm type)

theorem innerSizesForm_iff {type : DataType} {ts : List Token} {sized : DataType} :
    Seq (OneToken sizeOf?) (fun first us sized => ∃ second, SecondSizeForm type us second ∧
      sized = type.sized first second) ts sized ↔ InnerSizesForm type ts sized := by
  constructor
  · rintro ⟨_, us, first, rfl, ⟨t, rfl, ht⟩, second, hSecond, rfl⟩
    exact ⟨t, us, first, second, rfl, sizeOf?_eq_some_iff.mp ht, hSecond, rfl⟩
  · rintro ⟨t, us, first, second, rfl, ht, hSecond, rfl⟩
    exact ⟨[t], us, first, rfl, ⟨t, rfl, sizeOf?_eq_some_iff.mpr ht⟩, second, hSecond, rfl⟩

theorem reads_innerSizes (type : DataType) :
    Reads limit
      (do
        let first ← size type
        let second ← secondSize type
        return type.sized first second)
      (InnerSizesForm type) (fun t => t.kind ≠ .comma) := by
  have hInner : Reads limit _ _ (fun t => t.kind ≠ .comma) :=
    (reads_size type).andThen fun first => (reads_secondSize type).map (type.sized first)
  exact hInner.congr fun _ _ => innerSizesForm_iff

theorem reads_sizes (type : DataType) : Reads limit (sizes type) (SizesForm type) follow :=
  (reads_parenthesized (reads_innerSizes type) fun t h => by simp [h]).mono (Nat.le_succ limit)

/-! ### Types -/

/-- What may stand after the keyword of a type, whose sizes are open. -/
def TypeTailForm (bare : DataType) (ts : List Token) (type : DataType) : Prop :=
  bare.maxSizes ≠ 0 ∧ SizesForm bare ts type ∨ Nothing bare ts type

theorem typeTailForm_of_no_sizes {bare type : DataType} {ts : List Token} (h : bare.maxSizes = 0) :
    TypeTailForm bare ts type ↔ Nothing bare ts type := by
  simp [TypeTailForm, h]

theorem typeTailForm_of_one_size {make : Option Size → DataType} {type : DataType}
    {ts : List Token} (hMax : (make none).maxSizes = 1)
    (hSized : ∀ n, (make none).sized n none = make (some n)) :
    TypeTailForm (make none) ts type ↔ ∃ length, LengthForm ts length ∧ type = make length := by
  constructor
  · rintro (⟨-, opening, _, closing, rfl, isOpening, ⟨first, us, n, second, rfl, hn, hSecond, rfl⟩,
      isClosing⟩ | ⟨rfl, rfl⟩)
    · rcases hSecond with ⟨comma, t, m, rfl, hTwo, -⟩ | ⟨rfl, rfl⟩
      · omega
      · exact ⟨some n, .sized isOpening hn isClosing, hSized n⟩
    · exact ⟨none, .absent, rfl⟩
  · rintro ⟨length, hForm, rfl⟩
    cases hForm with
    | absent => exact .inr ⟨rfl, rfl⟩
    | @sized opening first closing n isOpening hn isClosing =>
      exact .inl ⟨by omega, opening, [first], closing, rfl, isOpening,
        ⟨first, [], n, none, rfl, hn, .inr ⟨rfl, rfl⟩, (hSized n).symm⟩, isClosing⟩

theorem typeTailForm_float {type : DataType} {ts : List Token} :
    TypeTailForm (.float none none) ts type ↔
      ∃ precision scale, PrecisionForm ts precision scale ∧ type = .float precision scale := by
  constructor
  · rintro (⟨-, opening, _, closing, rfl, isOpening, ⟨first, us, n, second, rfl, hn, hSecond, rfl⟩,
      isClosing⟩ | ⟨rfl, rfl⟩)
    · rcases hSecond with ⟨comma, t, m, rfl, -, isComma, hm, rfl⟩ | ⟨rfl, rfl⟩
      · exact ⟨some n, some m, .scaled isOpening hn isComma hm isClosing, rfl⟩
      · exact ⟨some n, none, .alone (.sized isOpening hn isClosing), rfl⟩
    · exact ⟨none, none, .alone .absent, rfl⟩
  · have hMax : (DataType.float none none).maxSizes = 2 := rfl
    rintro ⟨precision, scale, hForm, rfl⟩
    cases hForm with
    | alone form =>
      cases form with
      | absent => exact .inr ⟨rfl, rfl⟩
      | @sized opening first closing n isOpening hn isClosing =>
        exact .inl ⟨by omega, opening, [first], closing, rfl, isOpening,
          ⟨first, [], n, none, rfl, hn, .inr ⟨rfl, rfl⟩, rfl⟩, isClosing⟩
    | @scaled opening first comma second closing n m isOpening hn isComma hm isClosing =>
      exact .inl ⟨by omega, opening, [first, comma, second], closing, rfl, isOpening,
        ⟨first, [comma, second], n, some m, rfl, hn,
          .inl ⟨comma, second, m, rfl, by omega, isComma, hm, rfl⟩, rfl⟩, isClosing⟩

theorem typeTailForm_char {type : DataType} {ts : List Token} :
    TypeTailForm (.char none) ts type ↔ ∃ length, LengthForm ts length ∧ type = .char length :=
  typeTailForm_of_one_size rfl fun _ => rfl

theorem typeTailForm_varchar {type : DataType} {ts : List Token} :
    TypeTailForm (.varchar none) ts type ↔
      ∃ length, LengthForm ts length ∧ type = .varchar length :=
  typeTailForm_of_one_size rfl fun _ => rfl

theorem typeForm_iff {ts : List Token} {type : DataType} :
    TypeForm ts type ↔ ∃ t us k bare, ts = t :: us ∧ t.isKeyword k = true ∧
      DataType.ofKeyword? k = some bare ∧ TypeTailForm bare us type := by
  constructor
  · intro h
    cases h with
    | bool isKeyword | int isKeyword | date isKeyword =>
      exact ⟨_, _, _, _, rfl, isKeyword, rfl, .inr ⟨rfl, rfl⟩⟩
    | char isKeyword form =>
      exact ⟨_, _, _, _, rfl, isKeyword, rfl, typeTailForm_char.mpr ⟨_, form, rfl⟩⟩
    | varchar isKeyword form =>
      exact ⟨_, _, _, _, rfl, isKeyword, rfl, typeTailForm_varchar.mpr ⟨_, form, rfl⟩⟩
    | float isKeyword form =>
      exact ⟨_, _, _, _, rfl, isKeyword, rfl, typeTailForm_float.mpr ⟨_, _, form, rfl⟩⟩
  · rintro ⟨t, us, k, bare, rfl, isKeyword, ofKeyword, hTail⟩
    cases k with
    | bool =>
      cases ofKeyword
      obtain ⟨rfl, rfl⟩ := (typeTailForm_of_no_sizes rfl).mp hTail
      exact .bool isKeyword
    | int =>
      cases ofKeyword
      obtain ⟨rfl, rfl⟩ := (typeTailForm_of_no_sizes rfl).mp hTail
      exact .int isKeyword
    | date =>
      cases ofKeyword
      obtain ⟨rfl, rfl⟩ := (typeTailForm_of_no_sizes rfl).mp hTail
      exact .date isKeyword
    | char =>
      cases ofKeyword
      obtain ⟨length, form, rfl⟩ := typeTailForm_char.mp hTail
      exact .char isKeyword form
    | varchar =>
      cases ofKeyword
      obtain ⟨length, form, rfl⟩ := typeTailForm_varchar.mp hTail
      exact .varchar isKeyword form
    | float =>
      cases ofKeyword
      obtain ⟨precision, scale, form, rfl⟩ := typeTailForm_float.mp hTail
      exact .float isKeyword form
    | _ => cases ofKeyword

theorem reads_dataType : Reads limit dataType TypeForm (fun t => t.kind ≠ .parenOpen) := by
  have hAll : Reads limit dataType
      (Seq (fun ts token => ts = [token] ∧ token.kind = .keyword) fun token ts type =>
        ∃ bare, (Keyword.ofText? token.lexeme).bind DataType.ofKeyword? = some bare ∧
          TypeTailForm bare ts type)
      (fun t => t.kind ≠ .parenOpen) := by
    refine reads_index_bind fun start =>
      (reads_consume .keyword .dataType (by decide)).andThen fun token => ?_
    cases (Keyword.ofText? token.lexeme).bind DataType.ofKeyword? with
    | none => exact reads_fail _ _ (by simp)
    | some bare =>
      simp only [Option.some.injEq, exists_eq_left']
      apply reads_choice (looks_check (by decide))
      · split
        · rename_i hMax
          exact reads_index_bind fun i => reads_fail _ _ (by simp [hMax])
        · rename_i hMax
          exact (reads_sizes bare).congr fun ts type => by simp [hMax]
      · exact reads_pure bare
      · rintro ts type t ⟨-, opening, us, closing, rfl, hOpen, -⟩ _
        simp [hOpen]
      · rintro ts type t ⟨rfl, -⟩ hNext
        simpa using hNext
  refine hAll.congr fun ts type => ?_
  rw [typeForm_iff]
  constructor
  · rintro ⟨_, us, t, rfl, ⟨rfl, hKind⟩, bare, hBare, hSizes⟩
    obtain ⟨k, hText, ofKeyword⟩ := Option.bind_eq_some_iff.mp hBare
    exact ⟨t, us, k, bare, rfl, isKeyword_iff.mpr ⟨hKind, hText⟩, ofKeyword, hSizes⟩
  · rintro ⟨t, us, k, bare, rfl, isKeyword, ofKeyword, hSizes⟩
    obtain ⟨hKind, hText⟩ := isKeyword_iff.mp isKeyword
    exact ⟨[t], us, t, rfl, ⟨rfl, hKind⟩, bare, Option.bind_eq_some_iff.mpr ⟨k, hText, ofKeyword⟩,
      hSizes⟩

/-! ### Constraints -/

theorem reads_parenthesizedCondition :
    Reads limit (parenthesized condition) (Parenthesized (ConditionForm .disjunction)) follow :=
  (reads_parenthesized reads_condition fun t h => endsCondition_of_kind (by simp [h])).mono
    (Nat.le_succ limit)

/-- What `constraint` reads after the keyword. -/
def constraintBody (token : Token) (index : Nat) : ParseM Constraint := do
  match Keyword.ofText? token.lexeme with
  | some .notNull => return .notNull
  | some .primaryKey => return .primaryKey
  | some .unique => return .unique
  | some .default => return .default (← literal)
  | some .check => return .check (← parenthesized condition)
  | _ => fail (.unexpectedToken .constraint token) index

def ConstraintBodyForm (constraint : Constraint) (ts : List Token) : Prop :=
  match constraint with
  | .default v => LiteralForm ts v
  | .check condition => Parenthesized (ConditionForm .disjunction) ts condition
  | _ => ts = []

theorem reads_constraintBody (t : Token) (i : Nat) :
    Reads limit (constraintBody t i) (fun ts constraint =>
      Keyword.ofText? t.lexeme = some constraint.keyword ∧ ConstraintBodyForm constraint ts)
      follow := by
  unfold constraintBody
  split
  case h_1 hText | h_2 hText | h_3 hText =>
    refine (reads_pure _).congr fun ts constraint => ?_
    rw [hText]
    cases constraint <;> simp [Nothing, Constraint.keyword, ConstraintBodyForm]
  case h_4 hText =>
    refine (reads_literal.map Constraint.default).congr fun ts constraint => ?_
    rw [hText]
    cases constraint <;> simp [Constraint.keyword, ConstraintBodyForm]
  case h_5 hText =>
    refine (reads_parenthesizedCondition.map Constraint.check).congr fun ts constraint => ?_
    rw [hText]
    cases constraint <;> simp [Constraint.keyword, ConstraintBodyForm]
  case h_6 hNone =>
    refine reads_fail _ _ ?_
    rintro ts constraint ⟨hText, -⟩
    cases constraint <;> simp_all [Constraint.keyword]

theorem checkForm_iff {ts : List Token} {condition : Condition} :
    CheckForm ts condition ↔
      Led (·.isKeyword .check) (fun _ => Parenthesized (ConditionForm .disjunction)) ts
        condition := by
  constructor
  · rintro ⟨isCheck, isOpening, form, isClosing⟩
    exact ⟨_, _, rfl, isCheck, _, _, _, rfl, isOpening, form, isClosing⟩
  · rintro ⟨t, _, rfl, isCheck, opening, us, closing, rfl, isOpening, form, isClosing⟩
    exact .intro isCheck isOpening form isClosing

theorem constraintForm_iff {ts : List Token} {constraint : Constraint} :
    ConstraintForm ts constraint ↔
      ∃ t us, ts = t :: us ∧ t.isKeyword constraint.keyword = true ∧
        ConstraintBodyForm constraint us := by
  constructor
  · rintro (isKeyword | isKeyword | isKeyword | ⟨isKeyword, hv⟩ | form)
    · exact ⟨_, _, rfl, isKeyword, rfl⟩
    · exact ⟨_, _, rfl, isKeyword, rfl⟩
    · exact ⟨_, _, rfl, isKeyword, rfl⟩
    · exact ⟨_, _, rfl, isKeyword, ⟨hv⟩⟩
    · exact checkForm_iff.mp form
  · rintro ⟨t, us, rfl, isKeyword, hBody⟩
    cases constraint with
    | notNull =>
      cases hBody
      exact .notNull isKeyword
    | primaryKey =>
      cases hBody
      exact .primaryKey isKeyword
    | unique =>
      cases hBody
      exact .unique isKeyword
    | default v =>
      obtain ⟨hv⟩ := hBody
      exact .default isKeyword hv
    | check condition => exact .check (checkForm_iff.mpr ⟨t, us, rfl, isKeyword, hBody⟩)

/-- Where a keyword stands ahead, it might as well be looked at. -/
theorem run_constraint {parser : Parser} (hKind : parser.current.kind = .keyword) :
    parser.run constraint = parser.run (index >>= fun i =>
      consume .keyword .constraint >>= fun t => constraintBody t i) := by
  have hConsume := run_consume parser .keyword .constraint
  rw [if_pos hKind] at hConsume
  rw [run_bind_ok parser (run_index parser), run_bind_ok parser hConsume]
  rfl

/-- A keyword must stand ahead, because the reader steps without a look. -/
theorem yields_constraint {parser : Parser} (hReady : Ready limit parser)
    (hKind : parser.current.kind = .keyword) :
    Yields ConstraintForm follow parser (parser.run constraint) := by
  obtain ⟨us, hRest⟩ := hReady.rest_eq (by simp [hKind])
  have hBody : Yields _ follow parser.next _ :=
    reads_constraintBody parser.current parser.position parser.next
      ((Passes.next hRest).ready hReady)
  have hLed : Yields (Led (·.kind == .keyword) fun t ts constraint =>
      Keyword.ofText? t.lexeme = some constraint.keyword ∧ ConstraintBodyForm constraint ts)
      follow parser (parser.run constraint) := hBody.led hRest (by simp [hKind])
  refine hLed.congr fun ts constraint => ?_
  rw [constraintForm_iff]
  simp only [Led, isKeyword_iff, beq_iff_eq, and_assoc]

/-- Items one after the other, each of which the loop appends to what it has read. -/
def Appended {α : Type} (item : List Token → α → Prop) (read : List α) (ts : List Token)
    (all : List α) : Prop :=
  ∃ a, item ts a ∧ all = read ++ [a]

theorem constraint_loopReads :
    LoopReads limit (check .keyword) (fun read => constraint >>= fun next => pure (read ++ [next]))
      (·.kind == .keyword) (Appended ConstraintForm) anyToken where
  stops parser hKind := by rw [run_check, hKind]
  goes parser hReady hKind := by
    refine ⟨parser, by rw [run_check, hKind], fun read => ?_⟩
    exact (yields_constraint hReady (by simpa using hKind)).map (read ++ [·])
  begins := by
    rintro read ts all ⟨constraint, hForm, -⟩
    obtain ⟨t, us, rfl, isKeyword, -⟩ := constraintForm_iff.mp hForm
    exact ⟨t, us, rfl, by simp [kind_of_isKeyword isKeyword]⟩
  goesOn _ _ := trivial

theorem rounds_constraintForm_iff {read all : List Constraint} {ts : List Token} :
    Rounds (Appended ConstraintForm) read ts all ↔
      ∃ constraints, ConstraintsForm ts constraints ∧ all = read ++ constraints := by
  constructor
  · intro h
    induction h with
    | nil => exact ⟨[], .nil, by simp⟩
    | cons hRound _ ih =>
      obtain ⟨constraint, hForm, rfl⟩ := hRound
      obtain ⟨constraints, hForms, rfl⟩ := ih
      exact ⟨_, .cons hForm hForms, by simp⟩
  · rintro ⟨constraints, h, rfl⟩
    induction h generalizing read with
    | nil => simpa using Rounds.nil
    | @cons _ _ constraint constraints form _ ih =>
      have hRest := @ih (read ++ [constraint])
      rw [List.append_assoc] at hRest
      exact .cons ⟨constraint, form, rfl⟩ hRest

theorem reads_constraints :
    Reads limit constraints ConstraintsForm (fun t => t.kind ≠ .keyword) := by
  have hLoop : Reads limit constraints _ _ := constraint_loopReads.reads []
  refine (hLoop.congr fun ts constraints => ?_).weaken fun t h => ⟨trivial, by simpa using h⟩
  rw [rounds_constraintForm_iff]
  simp

/-! ### Columns -/

/-- The token after a column must continue neither its type nor its constraints. -/
def EndsColumn (t : Token) : Prop :=
  t.kind ≠ .parenOpen ∧ t.kind ≠ .keyword

theorem constraintsForm_head {ts : List Token} {constraints : List Constraint}
    (h : ConstraintsForm ts constraints) {t : Token} (ht : EndsColumn t) :
    (ts.headD t).kind ≠ .parenOpen := by
  cases h with
  | nil => exact ht.1
  | cons form _ =>
    obtain ⟨u, us, rfl, isKeyword, -⟩ := constraintForm_iff.mp form
    simp [kind_of_isKeyword isKeyword]

theorem columnForm_iff {ts : List Token} {column : Column} :
    ColumnForm ts column ↔ ∃ name us vs type constraints, ts = name :: us ++ vs ∧
      name.kind = .identifier ∧ TypeForm us type ∧ ConstraintsForm vs constraints ∧
      column = ⟨name.lexeme, type, constraints⟩ := by
  constructor
  · rintro ⟨isName, typeForm, constraintsForm⟩
    exact ⟨_, _, _, _, _, rfl, isName, typeForm, constraintsForm, rfl⟩
  · rintro ⟨name, us, vs, type, constraints, rfl, isName, typeForm, constraintsForm, rfl⟩
    exact .intro isName typeForm constraintsForm

theorem reads_column : Reads limit column ColumnForm EndsColumn := by
  have hConstraints : ∀ (name : Token) (type : DataType), Reads limit _ _ EndsColumn :=
    fun name type =>
      (reads_constraints.weaken fun t (h : EndsColumn t) => h.2).bind
        (fun constraints => (reads_record (.column ⟨name.lexeme, type, constraints⟩)).map
          fun _ => (⟨name.lexeme, type, constraints⟩ : Column))
        (by
          rintro constraints ts column t ⟨_, ⟨rfl, -⟩, -⟩ hNext
          exact hNext)
  have hAll : Reads limit column _ EndsColumn :=
    (reads_consume .identifier .columnName (by decide)).andThen fun name =>
      reads_dataType.bind (hConstraints name) (by
        rintro type ts column t ⟨us, _, constraints, rfl, hForm, _, ⟨rfl, -⟩, -⟩ hNext
        rw [List.append_nil]
        exact constraintsForm_head hForm hNext)
  refine hAll.congr fun ts column => ?_
  rw [columnForm_iff]
  constructor
  · rintro ⟨_, _, name, rfl, ⟨rfl, isName⟩, us, _, type, rfl, typeForm, vs, _, constraints, rfl,
      constraintsForm, _, ⟨rfl, -⟩, rfl⟩
    exact ⟨name, us, vs, type, constraints, by simp, isName, typeForm, constraintsForm, rfl⟩
  · rintro ⟨name, us, vs, type, constraints, rfl, isName, typeForm, constraintsForm, rfl⟩
    exact ⟨[name], us ++ vs, name, rfl, ⟨rfl, isName⟩, us, vs, type, rfl, typeForm, vs, [],
      constraints, by simp, constraintsForm, (), ⟨rfl, rfl⟩, rfl⟩

end SqlStore.Parser
