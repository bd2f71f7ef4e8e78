import SqlStore.Proofs.Parser.Statement

/-!
# Charges against tokens

An error has the index of a token. A charge says which faults may be found with a token, given the
tokens that have been passed before it and those that stand behind it. A reader is held to a charge
from where it begins: once some tokens have been passed, what is left of the charge is about fronts
that begin with them.

Most readers complain of nothing but an unexpected token. They are plain, and keep to every charge
that is open to that.
-/
namespace SqlStore.Parser
open Grammar
set_option autoImplicit false

/-- The tokens before a token, a fault that is found with it, the token, and those behind it. -/
abbrev Charge := List Token → ParseFault → Token → List Token → Prop

namespace Charge

/-- What is left of a charge after some tokens. -/
def after (charge : Charge) (ts : List Token) : Charge :=
  fun front => charge (ts ++ front)

/-- Any token may turn out to be unexpected. -/
def Open (charge : Charge) : Prop :=
  ∀ front expected t more, charge front (.unexpectedToken expected t) t more

variable {charge : Charge}

theorem Open.after (h : charge.Open) (ts : List Token) : (charge.after ts).Open :=
  fun front => h (ts ++ front)

theorem after_nil (ts : List Token) : charge.after ts [] = charge ts := by
  rw [Charge.after, List.append_nil]

theorem after_after (ts us : List Token) :
    (charge.after ts).after us = charge.after (ts ++ us) := by
  funext front
  rw [Charge.after, Charge.after, Charge.after, List.append_assoc]

end Charge

variable {α β : Type} {limit : Nat} {charge charge' : Charge} {parser : Parser}

/-- If the run has failed, then it is with a token that it has reached, and as the charge says. -/
inductive Blamed (charge : Charge) (parser : Parser) : Except ParseError α × Parser → Prop
  | ok {a : α} {after : Parser} {ts : List Token} (passes : Passes parser ts after) :
      Blamed charge parser (.ok a, after)
  | error {e : ParseError} {after : Parser} {ts front more : List Token} {t : Token}
      (passes : Passes parser ts after)
      (ahead : parser.rest ++ [parser.stop] = front ++ t :: more)
      (index : e.index = parser.position + front.length) (reached : front.length ≤ ts.length)
      (charged : charge front e.fault t more) : Blamed charge parser (.error e, after)

def Blames (limit : Nat) (reader : ParseM α) (charge : Charge) : Prop :=
  ∀ parser, Ready limit parser → Blamed charge parser (parser.run reader)

/-- The reader complains of nothing but an unexpected token. -/
def Plain (limit : Nat) (reader : ParseM α) : Prop :=
  ∀ charge : Charge, charge.Open → Blames limit reader charge

/-! ### Combining readers -/

theorem Passes.ahead {after : Parser} {ts : List Token} (h : Passes parser ts after) :
    parser.rest ++ [parser.stop] = ts ++ (after.rest ++ [after.stop]) := by
  rw [h.rest, h.stop, List.append_assoc]

theorem exists_ahead (parser : Parser) :
    ∃ more, parser.rest ++ [parser.stop] = parser.current :: more := by
  rw [current]
  cases parser.rest with
  | nil => exact ⟨[], rfl⟩
  | cons t us => exact ⟨us ++ [parser.stop], rfl⟩

theorem Blamed.moved {middle : Parser} {us : List Token}
    {result : Except ParseError α × Parser} (h : Blamed (charge.after us) middle result)
    (hPasses : Passes parser us middle) : Blamed charge parser result := by
  cases h with
  | ok passes => exact .ok (hPasses.trans passes)
  | @error e after ts front more t passes ahead index reached charged =>
    refine .error (hPasses.trans passes) ?_ ?_ ?_ charged
    · rw [hPasses.ahead, ahead, List.append_assoc]
    · rw [index, hPasses.position, List.length_append, Nat.add_assoc]
    · rw [List.length_append, List.length_append]
      omega

theorem Blamed.bind {first : ParseM α} {second : α → ParseM β}
    (h : Blamed charge parser (parser.run first))
    (hSecond : ∀ {a middle us}, parser.run first = (.ok a, middle) → Passes parser us middle →
      Blamed charge parser (middle.run (second a))) :
    Blamed charge parser (parser.run (first >>= second)) := by
  rcases hRun : parser.run first with ⟨e | a, middle⟩ <;> rw [hRun] at h
  · rw [run_bind_error parser hRun]
    cases h with
    | error passes ahead index reached charged =>
      exact .error passes ahead index reached charged
  · rw [run_bind_ok parser hRun]
    cases h with
    | ok passes => exact hSecond hRun passes

/-- The second reader may rely on what the first one has read. -/
theorem Blames.bind {first : ParseM α} {second : α → ParseM β} {form : List Token → α → Prop}
    {follow : Token → Prop} (hReads : Reads limit first form follow)
    (h : Blames limit first charge)
    (hSecond : ∀ us a, form us a → Blames limit (second a) (charge.after us)) :
    Blames limit (first >>= second) charge := by
  intro parser hReady
  refine (h parser hReady).bind fun hRun _ => ?_
  obtain ⟨us, hPasses, hForm⟩ := (hReads parser hReady).sound hRun
  exact (hSecond us _ hForm _ (hPasses.ready hReady)).moved hPasses

theorem Blamed.imp {result : Except ParseError α × Parser} (h : Blamed charge parser result)
    (hCharge : ∀ front fault t more, charge front fault t more → charge' front fault t more) :
    Blamed charge' parser result := by
  cases h with
  | ok passes => exact .ok passes
  | error passes ahead index reached charged =>
    exact .error passes ahead index reached (hCharge _ _ _ _ charged)

theorem Blames.imp {reader : ParseM α} (h : Blames limit reader charge)
    (hCharge : ∀ front fault t more, charge front fault t more → charge' front fault t more) :
    Blames limit reader charge' :=
  fun parser hReady => (h parser hReady).imp hCharge

theorem Blames.andPlain {first : ParseM α} {second : α → ParseM β} (h : Blames limit first charge)
    (hOpen : charge.Open) (hSecond : ∀ a, Plain limit (second a)) :
    Blames limit (first >>= second) charge :=
  fun parser hReady => (h parser hReady).bind fun _ hPasses =>
    (hSecond _ _ (hOpen.after _) _ (hPasses.ready hReady)).moved hPasses

theorem Plain.bind {first : ParseM α} {second : α → ParseM β} (h : Plain limit first)
    (hSecond : ∀ a, Plain limit (second a)) : Plain limit (first >>= second) :=
  fun _ hOpen => (h _ hOpen).andPlain hOpen hSecond

theorem blames_pure (a : α) : Blames limit (pure a) charge :=
  fun parser _ => .ok (.refl parser)

theorem plain_pure (a : α) : Plain limit (pure a) :=
  fun _ _ => blames_pure a

theorem Blames.map {reader : ParseM α} (h : Blames limit reader charge) (hOpen : charge.Open)
    (f : α → β) : Blames limit (reader >>= fun a => pure (f a)) charge :=
  h.andPlain hOpen fun a => plain_pure (f a)

theorem Plain.map {reader : ParseM α} (h : Plain limit reader) (f : α → β) :
    Plain limit (reader >>= fun a => pure (f a)) :=
  h.bind fun a => plain_pure (f a)

theorem plain_index : Plain limit index :=
  fun _ _ parser _ => .ok (.refl parser)

theorem plain_peek : Plain limit peek :=
  fun _ _ parser _ => .ok (.refl parser)

theorem plain_record (event : ParseEvent) : Plain limit (record event) := by
  intro charge _ parser _
  have hPasses : Passes parser [] { parser with events := event :: parser.events } :=
    ⟨rfl, rfl, rfl⟩
  exact .ok hPasses

theorem plain_advance : Plain limit advance := by
  intro charge _ parser _
  cases hRest : parser.rest with
  | nil =>
    rw [run_advance, next, hRest]
    exact .ok (.refl parser)
  | cons t us => exact .ok (.next hRest)

/-- A fault is found with the token at which the run has begun. -/
theorem Blamed.first {after : Parser} {ts : List Token} {fault : ParseFault}
    (hPasses : Passes parser ts after)
    (hCharge : ∀ more, parser.rest ++ [parser.stop] = parser.current :: more →
      charge [] fault parser.current more) :
    @Blamed α charge parser (.error ⟨fault, parser.position⟩, after) := by
  obtain ⟨more, hAhead⟩ := exists_ahead parser
  have hFront : parser.rest ++ [parser.stop] = [] ++ parser.current :: more := hAhead
  exact .error hPasses hFront rfl (Nat.zero_le _) (hCharge more hAhead)

theorem plain_unexpected (expected : Expectation) :
    Plain limit (unexpected expected : ParseM α) :=
  fun _ hOpen parser _ => .first (.refl parser) fun _ _ => hOpen _ _ _ _

/-- What is read is refused with the index of its first token, or else is read on. -/
theorem blames_checked {reader : ParseM α} {second : Nat → α → ParseM β}
    {form : List Token → α → Prop} {follow : Token → Prop} (hReads : Reads limit reader form follow)
    (h : Blames limit reader charge)
    (hSecond : ∀ i us a, form us a →
      (∃ fault, second i a = fail fault i ∧
        ∀ t more back, us ++ back = t :: more → charge [] fault t more) ∨
      Blames limit (second i a) (charge.after us)) :
    Blames limit (index >>= fun i => reader >>= second i) charge := by
  intro parser hReady
  rw [run_bind_ok parser (run_index parser)]
  refine (h parser hReady).bind fun hRun _ => ?_
  obtain ⟨us, hPasses, hForm⟩ := (hReads parser hReady).sound hRun
  rcases hSecond parser.position us _ hForm with ⟨fault, hFail, hCharge⟩ | hSecond
  · rw [hFail, run_fail]
    exact .first hPasses fun more hAhead =>
      hCharge _ _ _ (hPasses.ahead.symm.trans hAhead)
  · exact (hSecond _ (hPasses.ready hReady)).moved hPasses

/-! ### Choices and loops -/

theorem plain_look {test : ParseM Bool} {p : Token → Bool} (h : Looks test p) :
    Plain limit test := by
  intro charge _ parser _
  rw [h.run parser]
  exact .ok (.refl parser)

theorem Plain.ite {test : ParseM Bool} {yes no : ParseM α} (h : Plain limit test)
    (hYes : Plain limit yes) (hNo : Plain limit no) :
    Plain limit (test >>= fun b => if b then yes else no) := by
  refine h.bind fun b => ?_
  cases b
  · exact hNo
  · exact hYes

theorem plain_stepIf {test : ParseM Bool} {p : Token → Bool} (h : Looks test p) :
    Plain limit (stepIf test) :=
  (plain_look h).ite (plain_advance.map fun _ => true) (plain_pure false)

theorem plain_consume (kind : TokenKind) (expected : Expectation) :
    Plain limit (consume kind expected) := by
  refine plain_peek.bind fun t => ?_
  split
  · exact plain_advance.map fun _ => t
  · exact plain_unexpected expected

theorem plain_consumeKeyword (keyword : Keyword) : Plain limit (consumeKeyword keyword) :=
  (plain_look (looks_checkKeyword keyword)).ite plain_advance (plain_unexpected _)

theorem Blames.takeToken {kind : TokenKind} {expected : Expectation} {next : Token → ParseM α}
    (hKind : kind ≠ .endOfInput) (hOpen : charge.Open)
    (h : ∀ t, t.kind = kind → Blames limit (next t) (charge.after [t])) :
    Blames limit (consume kind expected >>= next) charge := by
  have hReads : Reads limit (consume kind expected) _ anyToken := reads_consume kind expected hKind
  refine .bind hReads (plain_consume _ _ charge hOpen) ?_
  rintro _ t ⟨rfl, hIs⟩
  exact h t hIs

theorem Blames.takeKeyword {keyword : Keyword} {next : ParseM α} (hOpen : charge.Open)
    (h : ∀ t, t.isKeyword keyword = true → Blames limit next (charge.after [t])) :
    Blames limit (consumeKeyword keyword >>= fun _ => next) charge := by
  have hReads : Reads limit (consumeKeyword keyword) _ anyToken := reads_consumeKeyword keyword
  refine .bind hReads (plain_consumeKeyword _ charge hOpen) ?_
  rintro _ _ ⟨t, rfl, hIs⟩
  exact h t hIs

/-- A token that is refused after it has been taken has been taken alone. -/
theorem blames_checkedToken {kind : TokenKind} {expected : Expectation}
    {second : Nat → Token → ParseM α} (hKind : kind ≠ .endOfInput) (hOpen : charge.Open)
    (hSecond : ∀ i t, t.kind = kind →
      (∃ fault, second i t = fail fault i ∧ ∀ more, charge [] fault t more) ∨
      Blames limit (second i t) (charge.after [t])) :
    Blames limit (index >>= fun i => consume kind expected >>= second i) charge := by
  have hReads : Reads limit (consume kind expected) _ anyToken := reads_consume kind expected hKind
  refine blames_checked hReads (plain_consume _ _ charge hOpen) ?_
  rintro i _ t ⟨rfl, hIs⟩
  refine (hSecond i t hIs).imp_left fun ⟨fault, hFail, hCharge⟩ => ⟨fault, hFail, ?_⟩
  intro u more back hAhead
  obtain ⟨rfl, -⟩ := List.cons.inj hAhead
  exact hCharge more

theorem plain_repeatWhile {more : ParseM Bool} {step : α → ParseM α} (hMore : Plain limit more)
    (hStep : ∀ a, Plain limit (step a)) (a : α) : Plain limit (repeatWhile more step a) := by
  have hBounded : ∀ bound a, Plain limit (iterate more step bound a) := by
    intro bound
    induction bound with
    | zero => exact plain_pure
    | succ bound ih => exact fun a => hMore.ite ((hStep a).bind ih) (plain_pure a)
  exact fun charge hOpen parser hReady => hBounded _ a charge hOpen parser hReady

theorem plain_parenthesized {inner : ParseM α} (h : Plain limit inner) :
    Plain limit (parenthesized inner) :=
  (plain_consume _ _).bind fun _ => h.bind fun a => (plain_consume _ _).map fun _ => a

/-- A choice by a look ahead, which the first branch may rely on. -/
theorem blames_choice {test : ParseM Bool} {p : Token → Bool} {yes no : ParseM α}
    (hTest : Looks test p)
    (hYes : ∀ parser, Ready limit parser → p parser.current = true →
      Blamed charge parser (parser.run yes)) (hNo : Blames limit no charge) :
    Blames limit (test >>= fun b => if b then yes else no) charge := by
  intro parser hReady
  rw [run_bind_ok parser (hTest.run parser)]
  cases hp : p parser.current with
  | true => exact hYes parser hReady hp
  | false => exact hNo parser hReady

/-- A choice that steps over the token by which it takes the first branch. -/
theorem blames_stepChoice {test : ParseM Bool} {p : Token → Bool} {yes no : ParseM α}
    (hTest : Looks test p) (hYes : ∀ t, p t = true → Blames limit yes (charge.after [t]))
    (hNo : Blames limit no charge) :
    Blames limit (stepIf test >>= fun b => if b then yes else no) charge := by
  intro parser hReady
  rw [run_bind_ok parser (run_stepIf parser (hTest.run parser))]
  cases hp : p parser.current with
  | true =>
    obtain ⟨us, hRest⟩ := hReady.rest_eq (hTest.atEnd _ hp)
    have hNext := Passes.next hRest
    exact (hYes parser.current hp parser.next (hNext.ready hReady)).moved hNext
  | false => exact hNo parser hReady

theorem blames_parenthesized {inner : ParseM α} (hOpen : charge.Open)
    (h : ∀ opening : Token, opening.kind = .parenOpen →
      Blames limit inner (charge.after [opening])) : Blames limit (parenthesized inner) charge :=
  .takeToken (by decide) hOpen fun opening isOpening =>
    (h opening isOpening).andPlain (hOpen.after _) fun a => (plain_consume _ _).map fun _ => a

/-- A loop whose rounds go on from what has been read as a whole. -/
theorem blames_repeatWhile {test : ParseM Bool} {p : Token → Bool} {step : α → ParseM α}
    {form : α → List Token → α → Prop} {follow : Token → Prop} (whole : List Token → α → Prop)
    (hTest : Looks test p) (hReads : ∀ a, Reads limit (step a) (form a) follow)
    (hWhole : ∀ {us a t ts b}, whole us a → p t = true → form a ts b → whole (us ++ t :: ts) b)
    (hStep : ∀ us a t, whole us a → p t = true →
      Blames limit (step a) (charge.after (us ++ [t])))
    {us : List Token} {a : α} (h : whole us a) :
    Blames limit (repeatWhile (stepIf test) step a) (charge.after us) := by
  have hBounded : ∀ bound us a, whole us a →
      Blames limit (iterate (stepIf test) step bound a) (charge.after us) := by
    intro bound
    induction bound with
    | zero => exact fun us a _ => blames_pure a
    | succ bound ih =>
      intro us a hUs
      refine blames_stepChoice hTest (fun t hp => ?_) (blames_pure a)
      rw [Charge.after_after]
      refine .bind (hReads a) (hStep us a t hUs hp) fun ts b hForm => ?_
      rw [Charge.after_after, List.append_assoc]
      exact ih _ b (hWhole hUs hp hForm)
  exact fun parser hReady => hBounded _ us a h parser hReady

theorem plain_separated {step : α → ParseM α} (hStep : ∀ a, Plain limit (step a)) (a : α) :
    Plain limit (separated step a) :=
  (hStep a).bind (plain_repeatWhile (plain_stepIf (looks_check (by decide))) hStep)

/-! ### Plain readers -/

theorem plain_literal : Plain limit literal := by
  refine plain_peek.bind fun t => ?_
  split
  · exact plain_advance.map fun _ => _
  · exact plain_unexpected .literal

theorem plain_operand : Plain limit operand := by
  refine plain_peek.bind fun t => ?_
  split
  · exact plain_advance.map fun _ => _
  · split
    · exact plain_advance.map fun _ => _
    · exact plain_unexpected .operand

theorem plain_comparator : Plain limit comparator := by
  refine fun charge hOpen => blames_checkedToken (by decide) hOpen fun i t _ => ?_
  split
  · exact .inr (blames_pure _)
  · exact .inl ⟨_, rfl, fun _ => hOpen _ _ _ _⟩

theorem plain_comparison : Plain limit comparison :=
  plain_operand.bind fun left => plain_comparator.bind fun op =>
    plain_operand.map (Condition.comparison left op)

theorem plain_chain (word : String) (join : Condition → Condition → Condition)
    {item : ParseM Condition} (h : Plain limit item) : Plain limit (chain word join item) :=
  h.bind (plain_repeatWhile (plain_stepIf (looks_checkConnective word)) fun left =>
    h.map (join left))

theorem plain_conditionWithin (depth : Nat) : Plain limit (conditionWithin depth) := by
  induction depth with
  | zero => exact plain_unexpected .operand
  | succ depth ih =>
    exact plain_chain _ _ (plain_chain _ _
      ((plain_look (looks_check (by decide))).ite (plain_parenthesized ih) plain_comparison))

theorem plain_condition : Plain limit condition :=
  fun charge hOpen parser hReady => plain_conditionWithin _ charge hOpen parser hReady

theorem plain_constraint : Plain limit constraint := by
  intro charge hOpen parser hReady
  rw [constraint, run_bind_ok parser (run_index parser), run_bind_ok parser (run_peek parser)]
  refine (plain_advance charge hOpen parser hReady).bind fun {_ middle us} _ hPasses => ?_
  have hMoved : ∀ {reader : ParseM Constraint}, Plain limit reader →
      Blamed charge parser (middle.run reader) := fun h =>
    (h _ (hOpen.after us) middle (hPasses.ready hReady)).moved hPasses
  split
  · exact hMoved (plain_pure _)
  · exact hMoved (plain_pure _)
  · exact hMoved (plain_pure _)
  · exact hMoved (plain_literal.map Constraint.default)
  · exact hMoved ((plain_parenthesized plain_condition).map Constraint.check)
  · exact .first hPasses fun _ _ => hOpen _ _ _ _

theorem plain_constraints : Plain limit constraints :=
  plain_repeatWhile (plain_look (looks_check (by decide)))
    (fun read => plain_constraint.map (read ++ [·])) []

end SqlStore.Parser
