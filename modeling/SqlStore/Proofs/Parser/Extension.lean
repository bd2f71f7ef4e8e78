import SqlStore.Proofs.Parser.Admission
import SqlStore.Proofs.Parser.Cause

/-!
# Viable prefixes

The tokens before an unexpected one can be continued to a sentence of the grammar. Every reader is
followed to the places where it may meet a token that does not fit, and its form can be completed
from there. The completions need a sample of each form.
-/
namespace SqlStore
set_option autoImplicit false

/-- A keyword as a token. -/
def Keyword.token (k : Keyword) : Token :=
  ⟨.keyword, k.spelling, 0⟩

theorem Keyword.isKeyword_token (k : Keyword) : k.token.isKeyword k = true := by
  cases k <;> decide

namespace Parser
open Grammar

variable {α β : Type} {limit : Nat} {language other : List Token → Prop} {follow : Token → Prop}

/-- The tokens begin a list of tokens of the language. -/
def Viable (language : List Token → Prop) (ts : List Token) : Prop :=
  ∃ more, language (ts ++ more)

theorem Viable.of_mem {ts : List Token} (h : language ts) : Viable language ts :=
  ⟨[], by rwa [List.append_nil]⟩

/-- An unexpected token stands behind a prefix that is viable. -/
def viable (language : List Token → Prop) : Charge :=
  fun front fault _ _ => fault.isUnexpected = true → Viable language front

theorem viable_after (us : List Token) :
    (viable language).after us = viable fun ts => language (us ++ ts) := by
  funext front fault t more
  simp only [viable, Charge.after, Viable, List.append_assoc]

/-- The reader meets an unexpected token only where its language could go on. -/
def Extends (limit : Nat) (reader : ParseM α) (language : List Token → Prop) : Prop :=
  Blames limit reader (viable language)

/-! ### Combining readers -/

theorem viable_imp (hOther : ∀ {ts}, language ts → Viable other ts) (front : List Token)
    (fault : ParseFault) (t : Token) (more : List Token) (h : viable language front fault t more) :
    viable other front fault t more := by
  intro hFault
  obtain ⟨us, hUs⟩ := h hFault
  obtain ⟨vs, hVs⟩ := hOther hUs
  exact ⟨us ++ vs, by rwa [← List.append_assoc]⟩

theorem Extends.imp {reader : ParseM α} (h : Extends limit reader language)
    (hOther : ∀ {ts}, language ts → Viable other ts) : Extends limit reader other :=
  Blames.imp h (viable_imp hOther)

theorem Extends.bind {first : ParseM α} {second : α → ParseM β} {form : List Token → α → Prop}
    (hReads : Reads limit first form follow) (h : Extends limit first language)
    (hSecond : ∀ us a, form us a → Extends limit (second a) fun ts => language (us ++ ts)) :
    Extends limit (first >>= second) language := by
  refine Blames.bind hReads h fun us a hForm => ?_
  rw [viable_after]
  exact hSecond us a hForm

theorem extends_pure (a : α) : Extends limit (pure a) language :=
  blames_pure a

theorem Extends.map {reader : ParseM α} (h : Extends limit reader language) (f : α → β) :
    Extends limit (reader >>= fun a => pure (f a)) language :=
  fun parser hReady => (h parser hReady).bind fun _ hPasses => .ok hPasses

theorem extends_unexpected (hLanguage : Viable language []) (expected : Expectation) :
    Extends limit (unexpected expected : ParseM α) language :=
  fun parser _ => .first (.refl parser) fun _ _ _ => hLanguage

theorem extends_record (event : ParseEvent) : Extends limit (record event) language := by
  intro parser _
  have hPasses : Passes parser [] (parser.run (record event)).2 := ⟨rfl, rfl, rfl⟩
  exact .ok hPasses

theorem extends_consume {kind : TokenKind} {expected : Expectation} (hKind : kind ≠ .endOfInput)
    (hLanguage : Viable language []) : Extends limit (consume kind expected) language := by
  intro parser hReady
  rw [run_consume]
  split
  · rename_i hIs
    obtain ⟨us, hRest⟩ := hReady.rest_eq (by rwa [hIs])
    exact .ok (.next hRest)
  · exact .first (.refl parser) fun _ _ _ => hLanguage

theorem extends_takeToken {kind : TokenKind} {expected : Expectation} {next : Token → ParseM α}
    (hKind : kind ≠ .endOfInput) (hLanguage : Viable language [])
    (h : ∀ t, t.kind = kind → Extends limit (next t) fun ts => language (t :: ts)) :
    Extends limit (consume kind expected >>= next) language := by
  have hReads : Reads limit (consume kind expected) _ anyToken := reads_consume kind expected hKind
  refine .bind hReads (extends_consume hKind hLanguage) ?_
  rintro _ t ⟨rfl, hIs⟩
  exact h t hIs

theorem extends_takeKeyword {keyword : Keyword} {next : ParseM α} (hLanguage : Viable language [])
    (h : ∀ t, t.isKeyword keyword = true → Extends limit next fun ts => language (t :: ts)) :
    Extends limit (consumeKeyword keyword >>= fun _ => next) language := by
  have hReads : Reads limit (consumeKeyword keyword) _ anyToken := reads_consumeKeyword keyword
  refine .bind hReads ?_ ?_
  · intro parser hReady
    rw [run_consumeKeyword]
    split
    · rename_i hIs
      obtain ⟨us, hRest⟩ := hReady.rest_eq (by simp [kind_of_isKeyword hIs])
      exact .ok (.next hRest)
    · exact .first (.refl parser) fun _ _ _ => hLanguage
  · rintro _ _ ⟨t, rfl, hIs⟩
    exact h t hIs

theorem extends_checkedToken {kind : TokenKind} {expected : Expectation}
    {second : Nat → Token → ParseM α} (hKind : kind ≠ .endOfInput) (hLanguage : Viable language [])
    (hSecond : ∀ i t, t.kind = kind → (∃ fault, second i t = fail fault i) ∨
      Extends limit (second i t) fun ts => language (t :: ts)) :
    Extends limit (index >>= fun i => consume kind expected >>= second i) language := by
  have hReads : Reads limit (consume kind expected) _ anyToken := reads_consume kind expected hKind
  refine blames_checked hReads (extends_consume hKind hLanguage) ?_
  rintro i _ t ⟨rfl, hIs⟩
  rcases hSecond i t hIs with ⟨fault, hFail⟩ | h
  · exact .inl ⟨fault, hFail, fun _ _ _ _ _ => hLanguage⟩
  · rw [viable_after]
    exact .inr h

theorem extends_stepChoice {test : ParseM Bool} {p : Token → Bool} {yes no : ParseM α}
    (hTest : Looks test p)
    (hYes : ∀ t, p t = true → Extends limit yes fun ts => language (t :: ts))
    (hNo : Extends limit no language) :
    Extends limit (stepIf test >>= fun b => if b then yes else no) language := by
  refine blames_stepChoice hTest (fun t hp => ?_) hNo
  rw [viable_after]
  exact hYes t hp

theorem extends_parenthesized {inner : ParseM α} {form form' : List Token → α → Prop}
    (hReads : Reads limit inner form follow) (h : Extends limit inner (Written form'))
    (hForm : ∀ {ts a}, form ts a → form' ts a) (hSome : Viable (Written form') []) :
    Extends (limit + 1) (parenthesized inner) (Written (Parenthesized form')) := by
  have hClosed : ∀ {opening : Token} {us : List Token}, opening.kind = .parenOpen →
      Written form' us → Viable (Written (Parenthesized form')) (opening :: us) := by
    rintro opening us isOpening ⟨a, hUs⟩
    exact ⟨[⟨.parenClose, ")", 0⟩], a, opening, us, _, rfl, isOpening, hUs, rfl⟩
  have hEmpty : Viable (Written (Parenthesized form')) [] := by
    obtain ⟨ts, a, hTs⟩ := hSome
    exact ⟨⟨.parenOpen, "(", 0⟩ :: ts ++ [⟨.parenClose, ")", 0⟩], a, _, _, _, rfl, rfl, hTs, rfl⟩
  intro parser hReady
  refine (extends_consume (by decide) hEmpty parser hReady).bind
    fun {opening middle us} hRun hPasses => ?_
  have hConsume : Reads (limit + 1) (consume .parenOpen .parenOpen) _ anyToken :=
    reads_consume .parenOpen .parenOpen (by decide)
  obtain ⟨_, hOpening, rfl, isOpening⟩ := (hConsume parser hReady).sound hRun
  obtain rfl := hPasses.unique hOpening
  have hInner : Extends limit (inner >>= fun a => consume .parenClose .parenClose >>= fun _ => pure a)
      fun ts => Written (Parenthesized form') ([opening] ++ ts) :=
    .bind hReads (h.imp (hClosed isOpening)) fun us a hUs =>
      (extends_consume (by decide) (hClosed isOpening ⟨a, hForm hUs⟩)).map fun _ => a
  rw [Extends, ← viable_after] at hInner
  exact (hInner middle (hPasses.ready_of_cons hReady)).moved hPasses

/-- A reader that takes a token for which there is a value. -/
theorem extends_ofToken {reader : ParseM α} (f : Token → Option α) (expected : Expectation)
    (hRun : ∀ parser : Parser, parser.run reader = Pairing.takeToken f expected parser)
    (hEnd : ∀ t a, f t = some a → t.kind ≠ .endOfInput) (hLanguage : Viable language []) :
    Extends limit reader language := by
  intro parser hReady
  rw [hRun, Pairing.takeToken]
  cases h : f parser.current with
  | none => exact .first (.refl parser) fun _ _ _ => hLanguage
  | some a =>
    obtain ⟨us, hRest⟩ := hReady.rest_eq (hEnd _ _ h)
    exact .ok (.next hRest)

/-! ### Conditions -/

theorem extends_literal (hLanguage : Viable language []) : Extends limit literal language := by
  refine extends_ofToken Token.literal? .literal (fun parser => ?_) (fun _ _ => kind_of_literal?)
    hLanguage
  rw [run_literal, Pairing.takeToken]
  cases parser.current.literal? <;> rfl

theorem extends_operand (hLanguage : Viable language []) : Extends limit operand language := by
  refine extends_ofToken operandOf? .operand (fun parser => ?_) (fun t value h hKind => ?_) hLanguage
  · rw [run_operand, Pairing.takeToken]
    cases operandOf? parser.current <;> rfl
  · rw [Pairing.operandOf?_eq_none _ (.inl hKind)] at h
    cases h

theorem extends_comparator (hLanguage : Viable language []) :
    Extends limit comparator language := by
  refine extends_checkedToken (by decide) hLanguage fun i t _ => ?_
  split
  · exact .inr (extends_pure _)
  · exact .inl ⟨_, rfl⟩

theorem operandForm_sample : OperandForm [⟨.identifier, "a", 0⟩] (.column "a") :=
  .column rfl

theorem viable_comparisonForm {ts : List Token} {left : Operand} (h : OperandForm ts left) :
    Viable (Written ComparisonForm) ts :=
  ⟨[⟨.comparator, "=", 0⟩, ⟨.identifier, "a", 0⟩], _, ts, _, _, left, .eq, _, rfl, h, rfl, by decide,
    operandForm_sample, rfl⟩

theorem comparisonForm_sample : Viable (Written ComparisonForm) [] := by
  obtain ⟨more, h⟩ := viable_comparisonForm operandForm_sample
  exact ⟨_, h⟩

theorem extends_comparison : Extends limit comparison (Written ComparisonForm) := by
  have hOperand : Reads limit operand OperandForm anyToken := reads_operand
  have hComparator : Reads limit comparator _ anyToken := reads_comparator
  refine .bind hOperand (extends_operand comparisonForm_sample) fun ls left hLeft => ?_
  refine .bind hComparator (extends_comparator (viable_comparisonForm hLeft)) ?_
  rintro _ op ⟨t, rfl, ht⟩
  obtain ⟨hKind, hSign⟩ := Option.ite_none_right_eq_some.mp ht
  refine (extends_operand ?_).map (Condition.comparison left op)
  exact ⟨_, _, ls, t, _, left, op, _, rfl, hLeft, hKind, hSign, operandForm_sample, rfl⟩

theorem extends_chain {word : String} {join : Condition → Condition → Condition}
    {item : ParseM Condition} {form : List Token → Condition → Prop}
    (hReads : Reads limit item form follow) (h : Extends limit item (Written form)) :
    Extends limit (chain word join item) (Written (Chained word join form)) := by
  refine .bind hReads (h.imp fun ⟨a, hForm⟩ => .of_mem ⟨a, .single hForm⟩) fun us first hFirst => ?_
  rw [Extends, ← viable_after]
  refine blames_repeatWhile (Chained word join form) (looks_checkConnective word)
    (fun left => hReads.map (join left)) ?_ ?_ (.single hFirst)
  · rintro us left t ts _ hLeft ht ⟨right, hRight, rfl⟩
    exact hLeft.append ht hRight
  · intro us left t hLeft ht
    rw [viable_after]
    refine (h.imp ?_).map (join left)
    rintro ts ⟨right, hRight⟩
    have hAll := hLeft.append ht hRight
    rw [List.append_cons] at hAll
    exact .of_mem ⟨_, hAll⟩

theorem conditionForm_sample : Viable (Written (ConditionForm .disjunction)) [] := by
  obtain ⟨ts, condition, h⟩ := comparisonForm_sample
  exact ⟨ts, condition, .conjunction (.primary (primary_iff.mp (.inr h)))⟩

theorem extends_conditionWithin (depth : Nat) :
    Extends depth (conditionWithin depth) (Written (ConditionForm .disjunction)) := by
  induction depth with
  | zero => exact extends_unexpected conditionForm_sample .operand
  | succ depth ih =>
    have hPrimary : Extends (depth + 1)
        (do if ← check .parenOpen then parenthesized (conditionWithin depth) else comparison)
        (Written (ConditionForm .primary)) := by
      refine blames_choice (looks_check (by decide)) (fun parser hReady _ => ?_) ?_
      · have hInner : Extends (depth + 1) (parenthesized (conditionWithin depth)) _ :=
          extends_parenthesized (reads_conditionWithin depth) ih (fun h => h) conditionForm_sample
        exact hInner.imp (fun ⟨condition, h⟩ => .of_mem ⟨condition, primary_iff.mp (.inl h)⟩)
          parser hReady
      · exact extends_comparison.imp fun ⟨condition, h⟩ =>
          .of_mem ⟨condition, primary_iff.mp (.inr h)⟩
    have hReads := reads_primary (reads_conditionWithin depth)
    have hConjunction : Extends (depth + 1) _ (Written (ConditionForm .conjunction)) :=
      (extends_chain hReads hPrimary).imp fun ⟨condition, h⟩ =>
        .of_mem ⟨condition, chained_and_iff.mp h⟩
    exact (extends_chain (reads_conjunction hReads) hConjunction).imp fun ⟨condition, h⟩ =>
      .of_mem ⟨condition, chained_or_iff.mp h⟩

theorem extends_condition : Extends limit condition (Written (ConditionForm .disjunction)) := by
  intro parser hReady
  rw [condition, run_bind_ok parser (run_get parser)]
  exact extends_conditionWithin _ parser ⟨hReady.stop, Nat.le_refl _⟩

theorem Extends.mono {reader : ParseM α} {few : Nat} (h : Extends limit reader language)
    (hLimit : few ≤ limit) : Extends few reader language :=
  fun parser hReady => h parser ⟨hReady.stop, hReady.rest.trans hLimit⟩

theorem extends_parenthesizedCondition : Extends limit (parenthesized condition)
    (Written (Parenthesized (ConditionForm .disjunction))) := by
  have hReads : Reads limit condition (ConditionForm .disjunction) EndsCondition := reads_condition
  exact (extends_parenthesized hReads extends_condition (fun h => h) conditionForm_sample).mono
    (Nat.le_succ limit)

/-! ### Columns -/

theorem extends_size {type : DataType} (hLanguage : Viable language []) :
    Extends limit (size type) language := by
  refine extends_checkedToken (by decide) hLanguage fun i t _ => ?_
  split
  · exact .inr (extends_pure _)
  · exact .inl ⟨_, rfl⟩

theorem sizeForm_sample : SizeForm ⟨.numberLiteral, "1", 0⟩ ⟨1, by decide⟩ :=
  .intro rfl (by decide)

theorem extends_secondSize {type : DataType}
    (hLanguage : ∀ comma : Token, comma.kind = .comma → 2 ≤ type.maxSizes →
      Viable language [comma]) : Extends limit (secondSize type) language := by
  unfold secondSize
  split
  · exact extends_pure none
  · rename_i hMax
    refine extends_stepChoice (looks_check (by decide)) (fun comma hComma => ?_) (extends_pure none)
    exact (extends_size (hLanguage comma (by simpa using hComma) (by omega))).map some

theorem extends_sizes (type : DataType) : Extends limit (sizes type) (Written (SizesForm type)) := by
  have hSize : Reads limit (size type) (OneToken sizeOf?) anyToken := reads_size type
  have hSome : Viable (Written (InnerSizesForm type)) [] :=
    ⟨[_], _, _, [], _, none, rfl, sizeForm_sample, .inr ⟨rfl, rfl⟩, rfl⟩
  have hInner : Extends limit (size type >>= fun first => secondSize type >>= fun second =>
      pure (type.sized first second)) (Written (InnerSizesForm type)) := by
    refine .bind hSize (extends_size hSome) ?_
    rintro _ first ⟨t, rfl, ht⟩
    refine (extends_secondSize fun comma isComma takesTwo => ?_).map _
    exact ⟨[_], _, t, _, first, some _, rfl, sizeOf?_eq_some_iff.mp ht,
      .inl ⟨comma, _, _, rfl, takesTwo, isComma, sizeForm_sample, rfl⟩, rfl⟩
  exact (extends_parenthesized (reads_innerSizes type) hInner (fun h => h) hSome).mono
    (Nat.le_succ limit)

theorem extends_dataType : Extends limit dataType (Written TypeForm) := by
  refine extends_checkedToken (by decide)
    ⟨[Keyword.bool.token], _, .bool Keyword.bool.isKeyword_token⟩ fun i t hKind => ?_
  cases hType : (Keyword.ofText? t.lexeme).bind DataType.ofKeyword? with
  | none => exact .inl ⟨_, rfl⟩
  | some bare =>
    obtain ⟨k, hText, ofKeyword⟩ := Option.bind_eq_some_iff.mp hType
    have isKeyword := isKeyword_iff.mpr ⟨hKind, hText⟩
    refine .inr (blames_choice (looks_check (by decide)) (fun parser hReady _ => ?_)
      (extends_pure bare))
    split
    · rw [run_bind_ok parser (run_index parser)]
      exact .first (.refl parser) fun _ _ => nofun
    · rename_i hTakes
      refine (extends_sizes bare).imp ?_ parser hReady
      rintro ts ⟨type, hForm⟩
      exact .of_mem ⟨type, typeForm_iff.mpr ⟨t, ts, k, bare, rfl, isKeyword, ofKeyword,
        .inl ⟨hTakes, hForm⟩⟩⟩

theorem extends_constraintBody (t : Token) (i : Nat) (hKind : t.kind = .keyword) :
    (∃ fault, constraintBody t i = fail fault i) ∨
      Extends limit (constraintBody t i) fun ts => Written ConstraintForm (t :: ts) := by
  unfold constraintBody
  split
  case h_1 | h_2 | h_3 => exact .inr (extends_pure _)
  case h_4 hText =>
    have isKeyword := isKeyword_iff.mpr ⟨hKind, hText⟩
    refine .inr ((extends_literal ?_).map _)
    exact ⟨[⟨.nullLiteral, "NULL", 0⟩], _, .default isKeyword rfl⟩
  case h_5 hText =>
    have isKeyword := isKeyword_iff.mpr ⟨hKind, hText⟩
    refine .inr ((extends_parenthesizedCondition.imp ?_).map _)
    rintro ts ⟨condition, hForm⟩
    exact .of_mem ⟨_, .check (checkForm_iff.mpr ⟨t, ts, rfl, isKeyword, hForm⟩)⟩
  case h_6 => exact .inl ⟨_, rfl⟩

theorem blamed_constraint {parser : Parser} (hReady : Ready limit parser)
    (hKind : parser.current.kind = .keyword) :
    Blamed (viable (Written ConstraintForm)) parser (parser.run constraint) := by
  rw [run_constraint hKind]
  have hSome : Viable (Written ConstraintForm) [] :=
    ⟨[Keyword.unique.token], _, .unique Keyword.unique.isKeyword_token⟩
  have hAll : Extends limit (index >>= fun i => consume .keyword .constraint >>= fun t =>
      constraintBody t i) (Written ConstraintForm) :=
    extends_checkedToken (by decide) hSome fun i t hKind => extends_constraintBody t i hKind
  exact hAll parser hReady

theorem constraintsForm_snoc {ts us : List Token} {read : List Constraint} {constraint : Constraint}
    (h : ConstraintsForm ts read) (hLast : ConstraintForm us constraint) :
    ConstraintsForm (ts ++ us) (read ++ [constraint]) := by
  induction h with
  | nil => simpa using ConstraintsForm.cons hLast .nil
  | cons form _ ih =>
    rw [List.append_assoc]
    exact .cons form ih

theorem extends_constraints : Extends limit constraints (Written ConstraintsForm) := by
  have hBounded : ∀ (bound : Nat) (us : List Token) (read : List Constraint),
      ConstraintsForm us read →
      Blames limit (iterate (check .keyword)
        (fun read => constraint >>= fun next => pure (read ++ [next])) bound read)
        ((viable (Written ConstraintsForm)).after us) := by
    intro bound
    induction bound with
    | zero => exact fun us read _ => blames_pure read
    | succ bound ih =>
      intro us read hRead
      refine blames_choice (looks_check (by decide)) (fun parser hReady hp => ?_) (blames_pure read)
      have hKind : parser.current.kind = .keyword := by simpa using hp
      rw [bind_assoc, viable_after]
      have hNext : ∀ {ts}, Written ConstraintForm ts →
          Viable (fun ts => Written ConstraintsForm (us ++ ts)) ts :=
        fun ⟨next, hForm⟩ => .of_mem ⟨_, constraintsForm_snoc hRead hForm⟩
      have hConstraint := (blamed_constraint hReady hKind).imp (viable_imp hNext)
      refine hConstraint.bind fun {next middle vs} hRun hPasses => ?_
      have hYields : Yields ConstraintForm anyToken parser _ := yields_constraint hReady hKind
      obtain ⟨ts, hTs, hForm⟩ := hYields.sound hRun
      obtain rfl := hPasses.unique hTs
      have hRest := ih _ _ (constraintsForm_snoc hRead hForm) middle (hPasses.ready hReady)
      rw [← Charge.after_after] at hRest
      rw [pure_bind, ← viable_after]
      exact hRest.moved hPasses
  exact fun parser hReady => hBounded parser.rest.length [] [] .nil parser hReady

theorem columnForm_sample : Viable (Written ColumnForm) [] :=
  ⟨[⟨.identifier, "a", 0⟩, Keyword.bool.token], _,
    .intro rfl (.bool Keyword.bool.isKeyword_token) .nil⟩

theorem extends_column : Extends limit column (Written ColumnForm) := by
  have hType : Reads limit dataType TypeForm _ := reads_dataType
  refine extends_takeToken (by decide) columnForm_sample fun name isName => ?_
  refine .bind hType (extends_dataType.imp ?_) fun us type typeForm => ?_
  · rintro ts ⟨type, typeForm⟩
    exact .of_mem ⟨_, columnForm_iff.mpr ⟨name, ts, [], type, [], by simp, isName, typeForm, .nil,
      rfl⟩⟩
  · have hConstraints : Reads limit constraints ConstraintsForm _ := reads_constraints
    refine .bind hConstraints (extends_constraints.imp ?_) fun vs constraints _ => ?_
    · rintro ts ⟨constraints, constraintsForm⟩
      exact .of_mem ⟨_, .intro isName typeForm constraintsForm⟩
    · exact (extends_record _).map _

/-! ### Tables -/

/-- The columns and the conditions of a table as a pair. -/
def TableEntriesForm (ts : List Token) (entries : List Column × List Condition) : Prop :=
  EntriesForm ts entries.1 entries.2

theorem extends_tableEntry (entries : List Column × List Condition)
    (hEntry : ∀ {ts}, EntryLanguage ts → Viable language ts) :
    Extends limit (tableEntry entries) language := by
  refine extends_stepChoice (looks_checkKeyword .check) (fun t isCheck => ?_) ?_
  · refine (extends_parenthesizedCondition.imp ?_).map _
    rintro ts ⟨condition, hForm⟩
    exact hEntry (.inl ⟨condition, checkForm_iff.mpr ⟨t, ts, rfl, isCheck, hForm⟩⟩)
  · have hColumn : Extends limit column language :=
      extends_column.imp fun hForm => hEntry (.inr hForm)
    refine Extends.map (blames_checked reads_column hColumn fun i us column _ => ?_) _
    split
    · exact .inl ⟨_, rfl, fun _ _ _ _ => nofun⟩
    · exact .inr (blames_pure _)

theorem extends_innerEntries :
    Extends limit (column >>= fun first => repeatWhile (accept .comma) tableEntry ([first], []))
      (Written TableEntriesForm) := by
  refine .bind reads_column (extends_column.imp fun ⟨column, hForm⟩ => .of_mem ⟨([column], []),
    .first hForm⟩) fun us first hFirst => ?_
  rw [Extends, ← viable_after]
  refine blames_repeatWhile DistinctEntriesForm (looks_check (by decide)) reads_tableEntry ?_ ?_
    ⟨.first hFirst, by simp⟩
  · intro us entries comma ts all hEntries hComma hEntry
    exact hEntries.append (by simpa using hComma) hEntry
  · intro us entries comma hEntries hComma
    have isComma : comma.kind = .comma := by simpa using hComma
    rw [viable_after]
    refine extends_tableEntry entries ?_
    rintro ts (⟨condition, hForm⟩ | ⟨column, hForm⟩)
    · have hAll := EntriesForm.check hEntries.1 isComma hForm
      rw [List.append_cons] at hAll
      exact .of_mem ⟨(entries.1, entries.2 ++ [condition]), hAll⟩
    · have hAll := EntriesForm.column hEntries.1 isComma hForm
      rw [List.append_cons] at hAll
      exact .of_mem ⟨(entries.1 ++ [column], entries.2), hAll⟩

/-- Two keywords and the name of a table stand before everything else. -/
theorem extends_heading {first second : Keyword} {next : Token → ParseM α}
    (hRest : ∃ ts, ∀ start other name : Token, start.isKeyword first = true →
      other.isKeyword second = true → name.kind = .identifier →
      language (start :: other :: name :: ts))
    (hNext : ∀ start other name, start.isKeyword first = true → other.isKeyword second = true →
      name.kind = .identifier →
      Extends limit (next name) fun ts => language (start :: other :: name :: ts)) :
    Extends limit (consumeKeyword first >>= fun _ => consumeKeyword second >>= fun _ =>
      consume .identifier .tableName >>= next) language := by
  obtain ⟨ts, hTs⟩ := hRest
  have hTable : (⟨.identifier, "t", 0⟩ : Token).kind = .identifier := rfl
  refine extends_takeKeyword
    ⟨_, hTs _ _ _ first.isKeyword_token second.isKeyword_token hTable⟩ fun start isFirst => ?_
  refine extends_takeKeyword
    ⟨_, hTs start _ _ isFirst second.isKeyword_token hTable⟩ fun other isSecond => ?_
  exact extends_takeToken (by decide) ⟨_, hTs start other _ isFirst isSecond hTable⟩
    fun name isName => hNext start other name isFirst isSecond isName

theorem extends_createTable : Extends limit createTable (Written StatementForm) := by
  have hBody : ∀ {start other name : Token} {ts : List Token}, start.isKeyword .create = true →
      other.isKeyword .table = true → name.kind = .identifier →
      Written (Parenthesized TableEntriesForm) ts →
        Written StatementForm (start :: other :: name :: ts) := by
    rintro start other name _ isCreate isTable isName
      ⟨entries, opening, us, closing, rfl, isOpening, hEntries, isClosing⟩
    exact ⟨_, .bare (.createTable isCreate isTable isName isOpening hEntries isClosing)⟩
  have hSome : Viable (Written TableEntriesForm) [] := by
    obtain ⟨ts, column, hForm⟩ := columnForm_sample
    exact ⟨ts, ([column], []), .first hForm⟩
  refine extends_heading ?_ fun start other name isFirst isSecond isName => ?_
  · obtain ⟨ts, entries, hForm⟩ := hSome
    exact ⟨_, fun start other name isFirst isSecond isName =>
      hBody isFirst isSecond isName
        ⟨entries, ⟨.parenOpen, "(", 0⟩, ts, ⟨.parenClose, ")", 0⟩, rfl, rfl, hForm, rfl⟩⟩
  · have hEntries : Extends (limit + 1) (parenthesized _)
        (Written (Parenthesized TableEntriesForm)) :=
      extends_parenthesized reads_innerEntries extends_innerEntries And.left hSome
    exact ((hEntries.mono (Nat.le_succ limit)).imp fun hForm =>
      .of_mem (hBody isFirst isSecond isName hForm)).map _

/-! ### Rows -/

theorem written_soFar {item : List Token → α → Prop} {inv : List α → Prop} {us ts : List Token}
    {as : List α} (h : SoFar (fun ts as => ListForm item ts as ∧ inv as) [] us as)
    (hItem : Written item ts) : Written (ListForm item) (us ++ ts) := by
  obtain ⟨a, hForm⟩ := hItem
  cases h with
  | start => exact ⟨_, .single hForm⟩
  | comma front isComma =>
    have hAll := ListForm.append front.1 isComma hForm
    rw [List.append_cons] at hAll
    exact ⟨_, hAll⟩

theorem nameForm_sample : Written NameForm [⟨.identifier, "a", 0⟩] :=
  ⟨"a", .intro rfl⟩

theorem extends_names :
    Extends limit (parenthesized (separated distinctName []))
      (Written (Parenthesized (ListForm NameForm))) := by
  have hNames : Extends limit (separated distinctName []) (Written (ListForm NameForm)) := by
    refine blames_separated List.Nodup List.nodup_nil (fun _ _ => nodup_append_singleton)
      reads_distinctName fun us names hFront => ?_
    rw [viable_after]
    refine extends_checkedToken (by decide) ⟨_, written_soFar hFront nameForm_sample⟩ fun i t _ => ?_
    split
    · exact .inl ⟨_, rfl⟩
    · exact .inr (extends_pure _)
  exact (extends_parenthesized reads_names hNames And.left
    ⟨_, written_soFar (.start : SoFar NamesForm [] [] []) nameForm_sample⟩).mono (Nat.le_succ limit)

theorem literalForm_sample : Written LiteralForm [⟨.nullLiteral, "NULL", 0⟩] :=
  ⟨.null, .intro rfl⟩

theorem extends_row : Extends limit row (Written RowForm) := by
  have hStep : ∀ values, Reads limit (literal >>= fun value => pure (values ++ [value]))
      (AppendedIf LiteralForm (fun _ _ => True) values) anyToken :=
    reads_appendedLiteral
  have hValues : Extends limit
      (separated (fun values => literal >>= fun value => pure (values ++ [value])) [])
      (Written (ListForm LiteralForm)) := by
    refine blames_separated (fun _ => True) trivial (fun _ _ => by simp) hStep
      fun us values hFront => ?_
    have hNext : Viable (fun ts => Written (ListForm LiteralForm) (us ++ ts)) [] :=
      ⟨_, written_soFar hFront literalForm_sample⟩
    rw [viable_after]
    exact (extends_literal hNext).map _
  have hSome : Viable (Written (ListForm LiteralForm)) [] := by
    obtain ⟨value, hForm⟩ := literalForm_sample
    exact ⟨_, _, .single hForm⟩
  have hAll : Extends (limit + 1) row (Written (Parenthesized (ListForm LiteralForm))) :=
    extends_parenthesized reads_values hValues (fun h => h) hSome
  refine (hAll.mono (Nat.le_succ limit)).imp ?_
  rintro ts ⟨row, opening, us, closing, rfl, isOpening, hForm, isClosing⟩
  exact .of_mem ⟨row, .intro isOpening hForm isClosing⟩

theorem extends_rows (width : Nat) :
    Extends limit (separated (rowOf width) []) (Written (ListForm RowForm)) := by
  refine blames_separated (fun rows => ∀ row ∈ rows, row.length = width) nofun
    (fun rows row => by simp [or_imp, forall_and]) (reads_rowOf width) fun us rows hFront => ?_
  rw [viable_after]
  have hRow : Extends limit row fun ts => Written (ListForm RowForm) (us ++ ts) :=
    extends_row.imp fun hForm => .of_mem (written_soFar hFront hForm)
  have hReads : Reads limit row RowForm anyToken := reads_row
  refine blames_checked hReads hRow fun i vs row _ => ?_
  split
  · exact .inr (blames_pure _)
  · exact .inl ⟨_, rfl, fun _ _ _ _ => nofun⟩

theorem extends_insertInto : Extends limit insertInto (Written StatementForm) := by
  have hBody : ∀ {start other name values : Token} {ts us : List Token},
      start.isKeyword .insert = true → other.isKeyword .into = true → name.kind = .identifier →
      Written (Parenthesized (ListForm NameForm)) ts → values.isKeyword .values = true →
      Written (ListForm RowForm) us →
      Written StatementForm (start :: other :: name :: (ts ++ values :: us)) := by
    rintro start other name values _ us isInsert isInto isName
      ⟨names, opening, ts, closing, rfl, isOpening, hNames, isClosing⟩ isValues ⟨rows, hRows⟩
    have hAll := BodyForm.insertInto isInsert isInto isName isOpening hNames isClosing isValues hRows
    exact ⟨_, .bare (by simpa using hAll)⟩
  have hRowSome : Written (ListForm RowForm) [⟨.parenOpen, "(", 0⟩, ⟨.nullLiteral, "NULL", 0⟩,
      ⟨.parenClose, ")", 0⟩] :=
    ⟨[[.null]], .single (.intro rfl (.single (.intro rfl)) rfl)⟩
  have hNamesSome : Written (Parenthesized (ListForm NameForm)) [⟨.parenOpen, "(", 0⟩,
      ⟨.identifier, "a", 0⟩, ⟨.parenClose, ")", 0⟩] :=
    ⟨["a"], _, [_], _, rfl, rfl, .single (.intro rfl), rfl⟩
  have hReads : Reads limit (parenthesized (separated distinctName [])) _ anyToken :=
    reads_parenthesizedNames
  refine extends_heading ?_ fun start other name isFirst isSecond isName => ?_
  · exact ⟨_, fun start other name isFirst isSecond isName =>
      hBody isFirst isSecond isName hNamesSome Keyword.values.isKeyword_token hRowSome⟩
  · refine .bind hReads (extends_names.imp fun hNames => ?_) ?_
    · exact ⟨_, hBody isFirst isSecond isName hNames Keyword.values.isKeyword_token hRowSome⟩
    · rintro us names ⟨opening, vs, closing, rfl, isOpening, hForm, isClosing⟩
      have hNames : Written (Parenthesized (ListForm NameForm)) (opening :: vs ++ [closing]) :=
        ⟨names, opening, vs, closing, rfl, isOpening, hForm.1, isClosing⟩
      refine extends_takeKeyword
        ⟨_, hBody isFirst isSecond isName hNames Keyword.values.isKeyword_token hRowSome⟩
        fun values isValues => ?_
      exact ((extends_rows names.length).imp fun hRows =>
        .of_mem (hBody isFirst isSecond isName hNames isValues hRows)).map _

/-! ### Statements -/

theorem blamed_finish {charge : Charge} {parser : Parser} (hReady : Ready limit parser)
    (keyword : Keyword) (first : Nat) (s : Statement) :
    Blamed charge parser (parser.run (finish keyword first s)) := by
  rw [finish, run_bind_ok parser (run_accept parser .terminator)]
  cases hEnds : parser.current.kind == .terminator with
  | false =>
    have hPasses : Passes parser [] (parser.run (record (.statement keyword s.table first
        parser.position))).2 := ⟨rfl, rfl, rfl⟩
    exact .ok hPasses
  | true =>
    obtain ⟨us, hRest⟩ := hReady.rest_eq ((looks_check (by decide)).atEnd _ hEnds)
    have hNext := Passes.next hRest
    have hPasses : Passes parser [parser.current] (parser.next.run (record (.statement keyword s.table
        first parser.next.position))).2 := ⟨hNext.rest, hNext.stop, hNext.position⟩
    exact .ok hPasses

theorem Extends.thenFinish {reader : ParseM α} (h : Extends limit reader language)
    (keyword : Keyword) (first : Nat) (make : α → Statement) :
    Extends limit (reader >>= fun a => finish keyword first (make a)) language :=
  fun parser hReady => (h parser hReady).bind fun _ hPasses =>
    (blamed_finish (hPasses.ready hReady) keyword first _).moved hPasses

theorem extends_statement : Extends limit statement (Written StatementForm) := by
  intro parser hReady
  by_cases hKind : parser.current.kind = .keyword
  · cases hCreate : parser.current.isKeyword .create with
    | true =>
      rw [run_statement, if_pos hKind, statementBody, (isKeyword_iff.mp hCreate).2]
      exact extends_createTable.thenFinish _ _ _ parser hReady
    | false =>
      cases hInsert : parser.current.isKeyword .insert with
      | true =>
        rw [run_statement, if_pos hKind, statementBody, (isKeyword_iff.mp hInsert).2]
        exact extends_insertInto.thenFinish _ _ _ parser hReady
      | false =>
        rw [run_statement_unsupported hKind hCreate hInsert]
        exact .first (.refl parser) fun _ _ hFault => by cases hFault
  · rw [run_statement, if_neg hKind]
    obtain ⟨ts, column, hForm⟩ := columnForm_sample
    have hSome := BodyForm.createTable Keyword.create.isKeyword_token Keyword.table.isKeyword_token
      (rfl : (⟨.identifier, "t", 0⟩ : Token).kind = .identifier)
      (rfl : (⟨.parenOpen, "(", 0⟩ : Token).kind = .parenOpen) (.first hForm)
      (rfl : (⟨.parenClose, ")", 0⟩ : Token).kind = .parenClose)
    exact .first (.refl parser) fun _ _ _ => ⟨_, _, .bare hSome⟩

end Parser
end SqlStore
