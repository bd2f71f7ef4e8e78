import SqlStore.Proofs.Parser.Condition

/-!
# Precedence of connectives

A condition is written as groups joined by OR, and a group as primaries joined by AND. The tree of
the whole nests the groups to the left, and each group its primaries. Parentheses around a primary,
a group, or the whole leave no trace in the tree, however many there are.
-/
namespace SqlStore.Parser
open Grammar
set_option autoImplicit false

variable {β γ : Type}

/-- One or more items. -/
structure Chain (β : Type) where
  first : β
  others : List β

namespace Chain

def items (chain : Chain β) : List β :=
  chain.first :: chain.others

def append (chain : Chain β) (b : β) : Chain β :=
  ⟨chain.first, chain.others ++ [b]⟩

/-- The items with a combination between them, grouped to the left. -/
def nested (combine : γ → γ → γ) (f : β → γ) (chain : Chain β) : γ :=
  chain.others.foldl (fun left b => combine left (f b)) (f chain.first)

@[simp] theorem items_append (chain : Chain β) (b : β) :
    (chain.append b).items = chain.items ++ [b] := rfl

@[simp] theorem nested_append (combine : γ → γ → γ) (f : β → γ) (chain : Chain β) (b : β) :
    (chain.append b).nested combine f = combine (chain.nested combine f) (f b) := by
  simp [nested, append]

/-- The tree of groups of primaries. -/
def tree : Chain (Chain Condition) → Condition :=
  nested .or (nested .and fun primary => primary)

end Chain

/-! ### Truth -/

variable (truth : Operand → Comparator → Operand → Bool)

theorem holds_nested_and (f : β → Condition) (chain : Chain β) :
    (chain.nested .and f).holds truth = chain.items.all fun b => (f b).holds truth := by
  have hFold : ∀ (others : List β) (left : Condition),
      (others.foldl (fun left b => Condition.and left (f b)) left).holds truth =
        (left.holds truth && others.all fun b => (f b).holds truth) := by
    intro others
    induction others with
    | nil => simp
    | cons b others ih =>
      intro left
      rw [List.foldl_cons, ih, Condition.holds, List.all_cons, Bool.and_assoc]
  exact hFold chain.others _

theorem holds_nested_or (f : β → Condition) (chain : Chain β) :
    (chain.nested .or f).holds truth = chain.items.any fun b => (f b).holds truth := by
  have hFold : ∀ (others : List β) (left : Condition),
      (others.foldl (fun left b => Condition.or left (f b)) left).holds truth =
        (left.holds truth || others.any fun b => (f b).holds truth) := by
    intro others
    induction others with
    | nil => simp
    | cons b others ih =>
      intro left
      rw [List.foldl_cons, ih, Condition.holds, List.any_cons, Bool.or_assoc]
  exact hFold chain.others _

/-- Some group holds with all its primaries. -/
theorem holds_tree (groups : Chain (Chain Condition)) :
    groups.tree.holds truth =
      groups.items.any fun group => group.items.all fun primary => primary.holds truth := by
  rw [Chain.tree, holds_nested_or]
  simp only [holds_nested_and]

/-! ### Written forms -/

/-- Items with a connective between them. -/
inductive Joined (word : String) (item : List Token → β → Prop) : List Token → Chain β → Prop
  | single {ts : List Token} {b : β} (form : item ts b) : Joined word item ts ⟨b, []⟩
  | append {ts us : List Token} {t : Token} {chain : Chain β} {b : β}
      (front : Joined word item ts chain) (isWord : t.isConnective word = true)
      (form : item us b) : Joined word item (ts ++ t :: us) (chain.append b)

/-- An item in any number of parentheses, which may be none. -/
inductive Wrapped (item : List Token → β → Prop) : List Token → β → Prop
  | bare {ts : List Token} {b : β} (form : item ts b) : Wrapped item ts b
  | parens {ts : List Token} {opening closing : Token} {b : β}
      (isOpening : opening.kind = .parenOpen) (form : Wrapped item ts b)
      (isClosing : closing.kind = .parenClose) : Wrapped item (opening :: ts ++ [closing]) b

/-- A group of primaries, with parentheses wherever one likes. -/
def GroupForm : List Token → Chain Condition → Prop :=
  Wrapped (Joined "AND" (Wrapped (ConditionForm .primary)))

/-- A condition as groups of primaries, with parentheses wherever one likes. -/
def GroupsForm : List Token → Chain (Chain Condition) → Prop :=
  Wrapped (Joined "OR" GroupForm)

/-! ### Levels of the grammar -/

variable {level : Level} {ts : List Token} {c : Condition}

theorem conditionForm_of_primary (h : ConditionForm .primary ts c) :
    ConditionForm level ts c := by
  cases level with
  | primary => exact h
  | conjunction => exact .primary h
  | disjunction => exact .conjunction (.primary h)

theorem disjunction_of_conditionForm (h : ConditionForm level ts c) :
    ConditionForm .disjunction ts c := by
  cases level with
  | primary => exact .conjunction (.primary h)
  | conjunction => exact .conjunction h
  | disjunction => exact h

/-- Parentheses bring what is inside back to the tightest level, with the same tree. -/
theorem conditionForm_of_wrapped {item : List Token → β → Prop} (tree : β → Condition)
    (hItem : ∀ {ts b}, item ts b → ConditionForm level ts (tree b)) {b : β}
    (h : Wrapped item ts b) : ConditionForm level ts (tree b) := by
  induction h with
  | bare form => exact hItem form
  | parens isOpening _ isClosing ih =>
    exact conditionForm_of_primary
      (.parenthesized isOpening (disjunction_of_conditionForm ih) isClosing)

theorem conditionForm_of_groupForm {group : Chain Condition} (h : GroupForm ts group) :
    ConditionForm .conjunction ts (group.nested .and fun primary => primary) := by
  refine conditionForm_of_wrapped _ (fun {ts group} hJoined => ?_) h
  induction hJoined with
  | single form =>
    exact .primary (conditionForm_of_wrapped (fun primary => primary) (fun h => h) form)
  | append _ isWord form ih =>
    rw [Chain.nested_append]
    exact .and ih isWord (conditionForm_of_wrapped (fun primary => primary) (fun h => h) form)

theorem conditionForm_of_groupsForm {groups : Chain (Chain Condition)} (h : GroupsForm ts groups) :
    ConditionForm .disjunction ts groups.tree := by
  refine conditionForm_of_wrapped _ (fun {ts groups} hJoined => ?_) h
  induction hJoined with
  | single form => exact .conjunction (conditionForm_of_groupForm form)
  | append _ isWord form ih =>
    rw [Chain.tree, Chain.nested_append]
    exact .or ih isWord (conditionForm_of_groupForm form)

theorem exists_groupForm (h : ConditionForm .conjunction ts c) :
    ∃ group, GroupForm ts group ∧ c = group.nested .and fun primary => primary := by
  suffices hJoined : ∃ group, Joined "AND" (Wrapped (ConditionForm .primary)) ts group ∧
      c = group.nested .and fun primary => primary by
    obtain ⟨group, hForm, hTree⟩ := hJoined
    exact ⟨group, .bare hForm, hTree⟩
  generalize hLevel : Level.conjunction = level at h
  induction h with
  | primary form => exact ⟨_, .single (.bare form), rfl⟩
  | and _ isAnd rightForm ih =>
    obtain ⟨group, hForm, rfl⟩ := ih hLevel
    exact ⟨_, .append hForm isAnd (.bare rightForm), (Chain.nested_append _ id _ _).symm⟩
  | _ => cases hLevel

/-- Every condition is written as groups of primaries. -/
theorem exists_groupsForm (h : ConditionForm .disjunction ts c) :
    ∃ groups, GroupsForm ts groups ∧ c = groups.tree := by
  suffices hJoined : ∃ groups, Joined "OR" GroupForm ts groups ∧ c = groups.tree by
    obtain ⟨groups, hForm, hTree⟩ := hJoined
    exact ⟨groups, .bare hForm, hTree⟩
  generalize hLevel : Level.disjunction = level at h
  induction h with
  | conjunction form =>
    obtain ⟨group, hForm, rfl⟩ := exists_groupForm form
    exact ⟨_, .single hForm, rfl⟩
  | or _ isOr rightForm ih =>
    obtain ⟨groups, hForm, rfl⟩ := ih hLevel
    obtain ⟨group, hGroup, rfl⟩ := exists_groupForm rightForm
    exact ⟨_, .append hForm isOr hGroup, (Chain.nested_append ..).symm⟩
  | _ => cases hLevel

/-- A primary is a comparison or again groups of primaries, in parentheses. -/
theorem primary_iff_groups :
    ConditionForm .primary ts c ↔ ComparisonForm ts c ∨
      ∃ groups, Parenthesized GroupsForm ts groups ∧ c = groups.tree := by
  rw [← primary_iff, or_comm]
  refine or_congr_right ?_
  constructor
  · rintro ⟨opening, us, closing, rfl, isOpening, form, isClosing⟩
    obtain ⟨groups, hForm, rfl⟩ := exists_groupsForm form
    exact ⟨groups, ⟨opening, us, closing, rfl, isOpening, hForm, isClosing⟩, rfl⟩
  · rintro ⟨groups, ⟨opening, us, closing, rfl, isOpening, form, isClosing⟩, rfl⟩
    exact ⟨opening, us, closing, rfl, isOpening, conditionForm_of_groupsForm form, isClosing⟩

/-- The tree of the groups is read from the tokens, and from these alone. -/
structure ReadAsGroups (ts : List Token) (groups : Chain (Chain Condition)) : Prop where
  read : ∀ (parser : Parser) (us : List Token), parser.stop.kind = .endOfInput →
    parser.rest = ts ++ us → EndsCondition (us.headD parser.stop) →
    ∃ after, parser.run condition = (.ok groups.tree, after) ∧ Passes parser ts after
  truth : ∀ truth, groups.tree.holds truth =
    groups.items.any fun group => group.items.all fun primary => primary.holds truth
  /-- In parentheses the condition is a primary of others. -/
  primary : ∀ opening closing : Token, opening.kind = .parenOpen → closing.kind = .parenClose →
    ConditionForm .primary (opening :: ts ++ [closing]) groups.tree

/-- Primaries are as `primary_iff_groups` says, so they may be nested to any depth. -/
theorem readAsGroups_of_groupsForm {groups : Chain (Chain Condition)} (h : GroupsForm ts groups) :
    ReadAsGroups ts groups ∧ ∀ us primary, ConditionForm .primary us primary ↔
      ComparisonForm us primary ∨
        ∃ inner, Parenthesized GroupsForm us inner ∧ primary = inner.tree := by
  have hForm := conditionForm_of_groupsForm h
  refine ⟨⟨fun parser us hStop hRest hNext => ?_, fun truth => holds_tree truth groups,
    fun _ _ isOpening isClosing => .parenthesized isOpening hForm isClosing⟩,
    fun _ _ => primary_iff_groups⟩
  exact (reads_condition parser ⟨hStop, Nat.le_refl _⟩).complete hRest hForm hNext

/-- A group in parentheses, and in it a primary in two of them. -/
theorem readAsGroups_of_groupsForm_wrapped :
    let word := fun (kind : TokenKind) (lexeme : String) => (⟨kind, lexeme, 0⟩ : Token)
    let opening := word .parenOpen "("
    let closing := word .parenClose ")"
    let written := fun name =>
      [word .identifier name, word .comparator "=", word .identifier name]
    let meant := fun name => Condition.comparison (.column name) .eq (.column name)
    let twice := opening :: (opening :: written "b" ++ [closing]) ++ [closing]
    let group := opening :: (written "a" ++ word .connective "and" :: twice) ++ [closing]
    let groups : Chain (Chain Condition) := ⟨⟨meant "a", [meant "b"]⟩, [⟨meant "c", []⟩]⟩
    GroupsForm (group ++ word .connective "OR" :: written "c") groups ∧
      groups.tree = .or (.and (meant "a") (meant "b")) (meant "c") ∧
      ReadAsGroups (group ++ word .connective "OR" :: written "c") groups := by
  intro word opening closing written meant twice group groups
  have hPrimary : ∀ name, ConditionForm .primary (written name) (meant name) := fun name =>
    @ConditionForm.comparison [_] [_] _ _ _ _ (.column rfl) rfl (by decide) (.column rfl)
  have hTwice : Wrapped (ConditionForm .primary) twice (meant "b") :=
    .parens rfl (.parens rfl (.bare (hPrimary "b")) rfl) rfl
  have hGroup : GroupForm group ⟨meant "a", [meant "b"]⟩ :=
    .parens rfl (.bare (.append (.single (.bare (hPrimary "a"))) (by decide) hTwice)) rfl
  have hGroups : GroupsForm (group ++ word .connective "OR" :: written "c") groups :=
    .bare (.append (.single hGroup) (by decide) (.bare (.single (.bare (hPrimary "c")))))
  exact ⟨hGroups, rfl, (readAsGroups_of_groupsForm hGroups).1⟩

end SqlStore.Parser
