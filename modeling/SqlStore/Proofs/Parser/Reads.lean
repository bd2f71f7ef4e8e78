import SqlStore.Parser.Lemmas

/-!
# Readers and forms

A form says which lists of tokens are written forms of a value. A reader reads a form if it is exact
for it: the tokens that it passes when it succeeds are a form of its result, and it succeeds on every
form, provided the token after the form is not one that the reader would take for a continuation.
Readers are combined in the parser as forms are combined in the grammar, so there is one rule here
for each way of combining.
-/
namespace SqlStore.Parser
set_option autoImplicit false

variable {α β : Type}

/-- The parser moves over tokens. What it records on the way is left open. -/
structure Passes (parser : Parser) (ts : List Token) (after : Parser) : Prop where
  rest : parser.rest = ts ++ after.rest
  stop : after.stop = parser.stop
  position : after.position = parser.position + ts.length

structure Ready (limit : Nat) (parser : Parser) : Prop where
  stop : parser.stop.kind = .endOfInput
  rest : parser.rest.length ≤ limit

namespace Passes

theorem refl (parser : Parser) : Passes parser [] parser :=
  ⟨rfl, rfl, rfl⟩

theorem trans {a b c : Parser} {ts us : List Token} (h : Passes a ts b) (h' : Passes b us c) :
    Passes a (ts ++ us) c where
  rest := by rw [h.rest, h'.rest, List.append_assoc]
  stop := h'.stop.trans h.stop
  position := by rw [h'.position, h.position, List.length_append, Nat.add_assoc]

theorem next {parser : Parser} {t : Token} {us : List Token} (h : parser.rest = t :: us) :
    Passes parser [t] parser.next := by
  rw [Parser.next, h]
  exact ⟨by simp [h], rfl, rfl⟩

theorem ready {limit : Nat} {parser after : Parser} {ts : List Token} (h : Passes parser ts after)
    (hReady : Ready limit parser) : Ready limit after where
  stop := by rw [h.stop, hReady.stop]
  rest := by
    have hLength := hReady.rest
    rw [h.rest, List.length_append] at hLength
    omega

theorem ready_of_cons {limit : Nat} {parser after : Parser} {t : Token} {ts : List Token}
    (h : Passes parser (t :: ts) after) (hReady : Ready (limit + 1) parser) :
    Ready limit after where
  stop := by rw [h.stop, hReady.stop]
  rest := by
    have hLength := hReady.rest
    rw [h.rest, List.length_append, List.length_cons] at hLength
    omega

theorem current {parser after : Parser} {ts : List Token} (h : Passes parser ts after) :
    after.current = after.rest.headD parser.stop := by
  rw [Parser.current, h.stop]

end Passes

theorem current_of_rest {parser : Parser} {t : Token} {us : List Token}
    (h : parser.rest = t :: us) : parser.current = t := by
  rw [current, h]
  rfl

/-- Only the end mark stands where no token is left. -/
theorem Ready.rest_eq {limit : Nat} {parser : Parser} (h : Ready limit parser)
    (hKind : parser.current.kind ≠ .endOfInput) :
    ∃ us, parser.rest = parser.current :: us := by
  cases hRest : parser.rest with
  | nil => exact absurd (by rw [current, hRest]; exact h.stop) hKind
  | cons t us => exact ⟨us, by rw [current_of_rest hRest]⟩

/-! ### Reading -/

/-- What a reader has made of a parser, measured by a form. -/
structure Yields (form : List Token → α → Prop) (follow : Token → Prop) (parser : Parser)
    (result : Except ParseError α × Parser) : Prop where
  sound : ∀ {a : α} {after : Parser}, result = (.ok a, after) →
    ∃ ts, Passes parser ts after ∧ form ts a
  complete : ∀ {ts us : List Token} {a : α}, parser.rest = ts ++ us → form ts a →
    follow (us.headD parser.stop) → ∃ after, result = (.ok a, after) ∧ Passes parser ts after

/-- The reader reads the form with at most `limit` tokens ahead. -/
def Reads (limit : Nat) (reader : ParseM α) (form : List Token → α → Prop)
    (follow : Token → Prop) : Prop :=
  ∀ parser, Ready limit parser → Yields form follow parser (parser.run reader)

def anyToken : Token → Prop :=
  fun _ => True

def OneToken (f : Token → Option α) (ts : List Token) (a : α) : Prop :=
  ∃ t, ts = [t] ∧ f t = some a

def Nothing (a : α) (ts : List Token) (b : α) : Prop :=
  ts = [] ∧ b = a

/-- One form after another, which may depend on the value of the first. -/
def Seq (first : List Token → α → Prop) (second : α → List Token → β → Prop) (ts : List Token)
    (b : β) : Prop :=
  ∃ us vs a, ts = us ++ vs ∧ first us a ∧ second a vs b

def Parenthesized (inner : List Token → α → Prop) (ts : List Token) (a : α) : Prop :=
  ∃ opening us closing, ts = opening :: us ++ [closing] ∧ opening.kind = .parenOpen ∧ inner us a ∧
    closing.kind = .parenClose

variable {limit : Nat} {form form' : List Token → α → Prop} {follow follow' : Token → Prop}

theorem Yields.congr {parser : Parser} {result : Except ParseError α × Parser}
    (h : Yields form follow parser result) (hForm : ∀ ts a, form ts a ↔ form' ts a) :
    Yields form' follow parser result := by
  have hEq : form = form' := by
    funext ts a
    exact propext (hForm ts a)
  rwa [← hEq]

/-- No form lies ahead of the parser. -/
def Misses (form : List Token → α → Prop) (follow : Token → Prop) (parser : Parser) : Prop :=
  ∀ ts us a, parser.rest = ts ++ us → form ts a → ¬ follow (us.headD parser.stop)

/-- A form does not lie ahead if the current token is not one with which it could begin. -/
theorem misses_of_head {parser : Parser} (p : Token → Bool) (b : Bool)
    (hHead : ∀ ts a t, form ts a → follow t → p (ts.headD t) = b)
    (h : p parser.current = !b) : Misses form follow parser := by
  intro ts us a hRest hForm hNext
  have hCurrent : parser.current = ts.headD (us.headD parser.stop) := by
    rw [current, hRest]
    cases ts <;> rfl
  have := hHead _ _ _ hForm hNext
  rw [← hCurrent, h] at this
  cases b <;> cases this

theorem Yields.of_error {parser after : Parser} {e : ParseError}
    (h : Misses form follow parser) : Yields form follow parser (.error e, after) where
  sound h := by cases h
  complete hRest hForm hNext := absurd hNext (h _ _ _ hRest hForm)

theorem Yields.or_left {parser : Parser} {result : Except ParseError α × Parser}
    (h : Yields form follow parser result) (hMisses : Misses form' follow parser) :
    Yields (fun ts a => form ts a ∨ form' ts a) follow parser result := by
  constructor
  · intro a after hRun
    obtain ⟨ts, hPasses, hForm⟩ := h.sound hRun
    exact ⟨ts, hPasses, .inl hForm⟩
  · rintro ts us a hRest (hForm | hForm) hNext
    · exact h.complete hRest hForm hNext
    · exact absurd hNext (hMisses _ _ _ hRest hForm)

theorem Yields.or_right {parser : Parser} {result : Except ParseError α × Parser}
    (h : Yields form' follow parser result) (hMisses : Misses form follow parser) :
    Yields (fun ts a => form ts a ∨ form' ts a) follow parser result :=
  (h.or_left hMisses).congr fun _ _ => Or.comm

theorem Reads.congr {reader : ParseM α} (h : Reads limit reader form follow)
    (hForm : ∀ ts a, form ts a ↔ form' ts a) : Reads limit reader form' follow :=
  fun parser hReady => (h parser hReady).congr hForm

theorem Reads.weaken {reader : ParseM α} (h : Reads limit reader form follow)
    (hFollow : ∀ t, follow' t → follow t) : Reads limit reader form follow' :=
  fun parser hReady =>
    ⟨(h parser hReady).sound,
      fun hRest hForm hNext => (h parser hReady).complete hRest hForm (hFollow _ hNext)⟩

theorem Reads.mono {reader : ParseM α} {limit' : Nat} (h : Reads limit reader form follow)
    (hLimit : limit' ≤ limit) : Reads limit' reader form follow :=
  fun parser hReady => h parser ⟨hReady.stop, Nat.le_trans hReady.rest hLimit⟩

theorem yields_pure (a : α) (parser : Parser) :
    Yields (Nothing a) follow parser (parser.run (pure a)) := by
  constructor
  · rintro b after h
    cases h
    exact ⟨[], .refl _, rfl, rfl⟩
  · rintro ts us b _ ⟨rfl, rfl⟩ _
    exact ⟨parser, rfl, .refl _⟩

theorem reads_pure (a : α) : Reads limit (pure a) (Nothing a) follow :=
  fun parser _ => yields_pure a parser

theorem reads_record (event : ParseEvent) :
    Reads limit (record event) (Nothing ()) follow := by
  intro parser _
  rw [run_record]
  constructor
  · rintro _ after h
    cases h
    exact ⟨[], ⟨rfl, rfl, rfl⟩, rfl, rfl⟩
  · rintro ts us _ _ ⟨rfl, -⟩ _
    exact ⟨_, rfl, ⟨rfl, rfl, rfl⟩⟩

theorem reads_fail (fault : ParseFault) (index : Nat) (h : ∀ ts a, ¬ form ts a) :
    Reads limit (fail fault index) form follow := by
  intro parser _
  rw [run_fail]
  exact .of_error fun ts _ a _ hForm => absurd hForm (h ts a)

theorem reads_index_bind {next : Nat → ParseM α} (h : ∀ i, Reads limit (next i) form follow) :
    Reads limit (index >>= next) form follow := by
  intro parser hReady
  rw [run_bind_ok parser (run_index parser)]
  exact h _ parser hReady

theorem Yields.bind {parser : Parser} {first : ParseM α} {second : α → ParseM β}
    {secondForm : α → List Token → β → Prop} (h : Yields form follow parser (parser.run first))
    (hSecond : ∀ {us a after}, Passes parser us after → form us a →
      Yields (secondForm a) follow' after (after.run (second a)))
    (hFollow : ∀ {a ts b t}, secondForm a ts b → follow' t → follow (ts.headD t)) :
    Yields (Seq form secondForm) follow' parser (parser.run (first >>= second)) := by
  constructor
  · intro b final hRun
    rw [run_bind] at hRun
    split at hRun
    · rename_i a after hFirst
      obtain ⟨us, hPasses, hForm⟩ := h.sound hFirst
      obtain ⟨vs, hPasses', hForm'⟩ := (hSecond hPasses hForm).sound hRun
      exact ⟨us ++ vs, hPasses.trans hPasses', us, vs, a, rfl, hForm, hForm'⟩
    · cases hRun
  · rintro ts ws b hRest ⟨us, vs, a, rfl, hForm, hForm'⟩ hNext
    rw [List.append_assoc] at hRest
    have hHead : follow ((vs ++ ws).headD parser.stop) := by
      have := hFollow hForm' hNext
      cases vs <;> simpa using this
    obtain ⟨after, hFirst, hPasses⟩ := h.complete hRest hForm hHead
    have hAfter : after.rest = vs ++ ws := by
      simpa [hRest] using hPasses.rest.symm
    obtain ⟨final, hRun, hPasses'⟩ :=
      (hSecond hPasses hForm).complete hAfter hForm' (by rwa [hPasses.stop])
    exact ⟨final, by rw [run_bind_ok parser hFirst, hRun], hPasses.trans hPasses'⟩

theorem Reads.bind {first : ParseM α} {second : α → ParseM β}
    {secondForm : α → List Token → β → Prop} (h : Reads limit first form follow)
    (hSecond : ∀ a, Reads limit (second a) (secondForm a) follow')
    (hFollow : ∀ {a ts b t}, secondForm a ts b → follow' t → follow (ts.headD t)) :
    Reads limit (first >>= second) (Seq form secondForm) follow' :=
  fun parser hReady =>
    (h parser hReady).bind (fun hPasses _ => hSecond _ _ (hPasses.ready hReady)) hFollow

/-- A reader that does not mind what follows it can stand before any other. -/
theorem Reads.andThen {first : ParseM α} {second : α → ParseM β}
    {secondForm : α → List Token → β → Prop} (h : Reads limit first form anyToken)
    (hSecond : ∀ a, Reads limit (second a) (secondForm a) follow) :
    Reads limit (first >>= second) (Seq form secondForm) follow :=
  h.bind hSecond fun _ _ => trivial

theorem Yields.map {parser : Parser} {reader : ParseM α}
    (h : Yields form follow parser (parser.run reader)) (f : α → β) :
    Yields (fun ts b => ∃ a, form ts a ∧ b = f a) follow parser
      (parser.run (reader >>= fun a => pure (f a))) := by
  have hBind : Yields (Seq form fun a => Nothing (f a)) follow parser
      (parser.run (reader >>= fun a => pure (f a))) := by
    refine h.bind (fun _ _ => yields_pure _ _) ?_
    rintro a ts b t ⟨rfl, -⟩ hNext
    exact hNext
  refine hBind.congr fun ts b => ?_
  constructor
  · rintro ⟨us, _, a, rfl, hForm, rfl, rfl⟩
    exact ⟨a, by rwa [List.append_nil], rfl⟩
  · rintro ⟨a, hForm, rfl⟩
    exact ⟨ts, [], a, (List.append_nil ts).symm, hForm, rfl, rfl⟩

theorem Reads.map {reader : ParseM α} (h : Reads limit reader form follow) (f : α → β) :
    Reads limit (reader >>= fun a => pure (f a)) (fun ts b => ∃ a, form ts a ∧ b = f a)
      follow :=
  fun parser hReady => (h parser hReady).map f

/-- A reader whose result is refused unless it is good. -/
theorem Reads.filter {reader : ParseM α} {second : α → ParseM β} {f : α → β}
    (h : Reads limit reader form follow) (good : α → Prop)
    (hGood : ∀ a, good a → second a = pure (f a))
    (hBad : ∀ a, ¬ good a → ∃ fault i, second a = fail fault i) :
    Reads limit (reader >>= second) (fun ts b => ∃ a, form ts a ∧ good a ∧ b = f a) follow := by
  have hSecond : ∀ a, Reads limit (second a) (fun ts b => good a ∧ Nothing (f a) ts b) follow := by
    intro a
    by_cases ha : good a
    · rw [hGood a ha]
      exact (reads_pure (f a)).congr fun ts b => (and_iff_right ha).symm
    · obtain ⟨fault, i, hFail⟩ := hBad a ha
      rw [hFail]
      exact reads_fail fault i fun ts b hForm => ha hForm.1
  have hBind := h.bind hSecond (by
    rintro a ts b t ⟨-, rfl, -⟩ hNext
    exact hNext)
  refine hBind.congr fun ts b => ?_
  constructor
  · rintro ⟨us, _, a, rfl, hForm, ha, rfl, rfl⟩
    exact ⟨a, by rwa [List.append_nil], ha, rfl⟩
  · rintro ⟨a, hForm, ha, rfl⟩
    exact ⟨ts, [], a, (List.append_nil ts).symm, hForm, ha, rfl, rfl⟩

/-! ### Single tokens -/

theorem reads_oneToken {reader : ParseM α} {f : Token → Option α}
    (hEnd : ∀ t a, f t = some a → t.kind ≠ .endOfInput)
    (hSome : ∀ (parser : Parser) (a : α), f parser.current = some a →
      parser.run reader = (.ok a, parser.next))
    (hNone : ∀ parser : Parser, f parser.current = none →
      ∃ e after, parser.run reader = (.error e, after)) :
    Reads limit reader (OneToken f) follow := by
  intro parser hReady
  constructor
  · intro a after hRun
    cases hf : f parser.current with
    | none =>
      obtain ⟨e, failed, hError⟩ := hNone parser hf
      rw [hError] at hRun
      cases hRun
    | some b =>
      rw [hSome parser b hf] at hRun
      cases hRun
      obtain ⟨us, hRest⟩ := hReady.rest_eq (hEnd _ _ hf)
      exact ⟨_, .next hRest, _, rfl, hf⟩
  · rintro ts us a hRest ⟨t, rfl, hf⟩ _
    have hCurrent := current_of_rest hRest
    exact ⟨parser.next, hSome parser a (by rwa [hCurrent]), .next hRest⟩

theorem reads_consume (kind : TokenKind) (expected : Expectation) (hKind : kind ≠ .endOfInput) :
    Reads limit (consume kind expected) (fun ts t => ts = [t] ∧ t.kind = kind) follow := by
  have h : Reads limit (consume kind expected)
      (OneToken fun t => if t.kind = kind then some t else none) follow := by
    apply reads_oneToken
    · intro t a h
      split at h
      · rename_i hEq
        rwa [hEq]
      · cases h
    · intro parser a h
      rw [run_consume]
      split at h
      · rename_i hEq
        cases h
        rw [if_pos hEq]
      · cases h
    · intro parser h
      rw [run_consume]
      split at h
      · cases h
      · rename_i hNe
        exact ⟨_, _, if_neg hNe⟩
  refine h.congr fun ts t => ?_
  simp only [OneToken, Option.ite_none_right_eq_some, Option.some.injEq]
  constructor
  · rintro ⟨t, rfl, hEq, rfl⟩
    exact ⟨rfl, hEq⟩
  · rintro ⟨rfl, hEq⟩
    exact ⟨t, rfl, hEq, rfl⟩

theorem kind_of_isKeyword {t : Token} {keyword : Keyword} (h : t.isKeyword keyword = true) :
    t.kind = .keyword := by
  simp only [Token.isKeyword, Bool.and_eq_true, beq_iff_eq] at h
  exact h.1

theorem reads_consumeKeyword (keyword : Keyword) :
    Reads limit (consumeKeyword keyword)
      (fun ts _ => ∃ t, ts = [t] ∧ t.isKeyword keyword = true) follow := by
  have h : Reads limit (consumeKeyword keyword)
      (OneToken fun t => if t.isKeyword keyword then some () else none) follow := by
    apply reads_oneToken
    · intro t a h
      rw [Option.ite_none_right_eq_some] at h
      simp [kind_of_isKeyword h.1]
    · intro parser a h
      rw [Option.ite_none_right_eq_some] at h
      rw [run_consumeKeyword, if_pos h.1]
    · intro parser h
      rw [run_consumeKeyword]
      split at h
      · cases h
      · rename_i hNe
        exact ⟨_, _, if_neg hNe⟩
  refine h.congr fun ts _ => ?_
  simp [OneToken]

theorem reads_parenthesized {inner : ParseM α} {innerFollow : Token → Prop}
    (h : Reads limit inner form innerFollow)
    (hClose : ∀ t, t.kind = .parenClose → innerFollow t) :
    Reads (limit + 1) (parenthesized inner) (Parenthesized form) follow := by
  intro parser hReady
  have hInner : Reads limit
      (inner >>= fun a => consume .parenClose .parenClose >>= fun _ => pure a)
      (Seq form fun a ts b => ∃ t, ts = [t] ∧ t.kind = .parenClose ∧ b = a) follow := by
    apply h.bind
    · intro a
      refine ((reads_consume .parenClose _ (by decide)).map fun _ => a).congr fun ts b => ?_
      simp [and_assoc]
    · rintro a _ b t ⟨u, rfl, hKind, -⟩ _
      exact hClose u hKind
  have hOpening : Reads (limit + 1) (consume .parenOpen .parenOpen) _ anyToken :=
    reads_consume .parenOpen _ (by decide)
  have hAll := (hOpening parser hReady).bind
    (fun hPasses hForm => hInner _ ((hForm.1 ▸ hPasses).ready_of_cons hReady))
    (fun _ _ => trivial)
  refine hAll.congr fun ts a => ?_
  constructor
  · rintro ⟨_, _, t, rfl, ⟨rfl, hOpen⟩, us, _, _, rfl, hForm, u, rfl, hClose, rfl⟩
    exact ⟨t, us, u, rfl, hOpen, hForm, hClose⟩
  · rintro ⟨t, us, u, rfl, hOpen, hForm, hClose⟩
    exact ⟨[t], us ++ [u], t, rfl, ⟨rfl, hOpen⟩, us, [u], a, rfl, hForm, u, rfl, hClose, rfl⟩

/-! ### Choices and loops -/

/-- A look at the current token that answers by `p` and moves nothing. -/
structure Looks (test : ParseM Bool) (p : Token → Bool) : Prop where
  run : ∀ parser : Parser, parser.run test = (.ok (p parser.current), parser)
  atEnd : ∀ t, p t = true → t.kind ≠ .endOfInput

theorem looks_check {kind : TokenKind} (hKind : kind ≠ .endOfInput) :
    Looks (check kind) (·.kind == kind) where
  run parser := run_check parser kind
  atEnd t h := by
    rw [beq_iff_eq] at h
    rwa [h]

theorem looks_checkKeyword (keyword : Keyword) :
    Looks (checkKeyword keyword) (·.isKeyword keyword) where
  run parser := run_checkKeyword parser keyword
  atEnd t h := by simp [kind_of_isKeyword h]

/-- A token and then a form that may depend on it. -/
def Led (p : Token → Bool) (form : Token → List Token → α → Prop) (ts : List Token) (a : α) :
    Prop :=
  ∃ t us, ts = t :: us ∧ p t = true ∧ form t us a

theorem led_head {p : Token → Bool} {tailForm : Token → List Token → α → Prop} {ts : List Token}
    {a : α} (h : Led p tailForm ts a) (t : Token) : p (ts.headD t) = true := by
  obtain ⟨u, us, rfl, hp, -⟩ := h
  exact hp

theorem Yields.led {parser : Parser} {p : Token → Bool} {result : Except ParseError α × Parser}
    {tailForm : Token → List Token → α → Prop} {us : List Token}
    (hRest : parser.rest = parser.current :: us) (hp : p parser.current = true)
    (h : Yields (tailForm parser.current) follow parser.next result) :
    Yields (Led p tailForm) follow parser result := by
  have hPasses := Passes.next hRest
  constructor
  · intro a after hRun
    obtain ⟨ts, hPasses', hForm⟩ := h.sound hRun
    exact ⟨_, hPasses.trans hPasses', _, _, rfl, hp, hForm⟩
  · rintro _ vs a hRest' ⟨t, ts, rfl, -, hForm⟩ hNext
    obtain rfl := current_of_rest hRest'
    have hNextRest : parser.next.rest = ts ++ vs := by
      have hAll := hPasses.rest.symm.trans hRest'
      simpa using (List.cons.inj hAll).2
    obtain ⟨after, hRun, hPasses'⟩ :=
      h.complete hNextRest hForm (by rwa [hPasses.stop])
    exact ⟨after, hRun, hPasses.trans hPasses'⟩

/-- A choice by a look ahead, if the forms of the two branches begin differently. -/
theorem reads_choice {test : ParseM Bool} {p : Token → Bool} (hTest : Looks test p)
    {yes no : ParseM α} (hYes : Reads limit yes form follow) (hNo : Reads limit no form' follow)
    (hYesHead : ∀ ts a t, form ts a → follow t → p (ts.headD t) = true)
    (hNoHead : ∀ ts a t, form' ts a → follow t → p (ts.headD t) = false) :
    Reads limit (test >>= fun b => if b then yes else no) (fun ts a => form ts a ∨ form' ts a)
      follow := by
  intro parser hReady
  rw [run_bind_ok parser (hTest.run parser)]
  cases hp : p parser.current with
  | true => exact (hYes parser hReady).or_left (misses_of_head p false hNoHead hp)
  | false => exact (hNo parser hReady).or_right (misses_of_head p true hYesHead hp)

/-- A choice that steps over the token by which it takes the first branch. -/
theorem reads_stepChoice {test : ParseM Bool} {p : Token → Bool} (hTest : Looks test p)
    {yes no : ParseM α} (hYes : Reads limit yes form follow) (hNo : Reads limit no form' follow)
    (hNoHead : ∀ ts a t, form' ts a → follow t → p (ts.headD t) = false) :
    Reads limit (stepIf test >>= fun b => if b then yes else no)
      (fun ts a => Led p (fun _ => form) ts a ∨ form' ts a) follow := by
  intro parser hReady
  rw [run_bind_ok parser (run_stepIf parser (hTest.run parser))]
  cases hp : p parser.current with
  | true =>
    obtain ⟨us, hRest⟩ := hReady.rest_eq (hTest.atEnd _ hp)
    have hYes := hYes parser.next ((Passes.next hRest).ready hReady)
    have hLed : Yields (Led p fun _ => form) follow parser _ := hYes.led hRest hp
    exact hLed.or_left (misses_of_head p false hNoHead hp)
  | false =>
    exact (hNo parser hReady).or_right
      (misses_of_head p true (fun ts a t hForm _ => led_head hForm t) hp)

/-- Any number of rounds, each of which goes on from the value of the one before. -/
inductive Rounds (round : α → List Token → α → Prop) : α → List Token → α → Prop where
  | nil {a : α} : Rounds round a [] a
  | cons {a b c : α} {ts us : List Token} (first : round a ts b) (rest : Rounds round b us c) :
      Rounds round a (ts ++ us) c

theorem Rounds.snoc {round : α → List Token → α → Prop} {a b c : α} {ts us : List Token}
    (h : Rounds round a ts b) (last : round b us c) : Rounds round a (ts ++ us) c := by
  induction h with
  | nil => simpa using Rounds.cons last .nil
  | cons first _ ih =>
    rw [List.append_assoc]
    exact .cons first (ih last)

/-- What a round preserves, all rounds preserve. -/
theorem Rounds.fold {round : α → List Token → α → Prop} (whole : List Token → α → Prop)
    (hRound : ∀ {ts us a b}, whole ts a → round a us b → whole (ts ++ us) b) {ts us : List Token}
    {a b : α} (hWhole : whole ts a) (h : Rounds round a us b) : whole (ts ++ us) b := by
  induction h generalizing ts with
  | nil => rwa [List.append_nil]
  | cons first _ ih =>
    rw [← List.append_assoc]
    exact ih (hRound hWhole first)

/-- What a loop needs of its test and its step: a round is read where the test says yes, whether or
not the test itself steps, and before the token by which it would go on. -/
structure LoopReads (limit : Nat) (more : ParseM Bool) (step : α → ParseM α) (p : Token → Bool)
    (round : α → List Token → α → Prop) (follow : Token → Prop) : Prop where
  stops : ∀ parser : Parser, p parser.current = false → parser.run more = (.ok false, parser)
  goes : ∀ parser : Parser, Ready limit parser → p parser.current = true →
    ∃ led : Parser, parser.run more = (.ok true, led) ∧
      ∀ a, Yields (round a) follow parser (led.run (step a))
  begins : ∀ {a ts b}, round a ts b → ∃ t us, ts = t :: us ∧ p t = true
  goesOn : ∀ t, p t = true → follow t

section

variable {more : ParseM Bool} {step : α → ParseM α} {p : Token → Bool}
  {round : α → List Token → α → Prop}

theorem LoopReads.sound (h : LoopReads limit more step p round follow) {bound : Nat}
    {parser after : Parser} {a b : α} (hReady : Ready limit parser)
    (hRun : parser.run (iterate more step bound a) = (.ok b, after)) :
    ∃ ts, Passes parser ts after ∧ Rounds round a ts b := by
  induction bound generalizing parser a with
  | zero =>
    cases hRun
    exact ⟨[], .refl _, .nil⟩
  | succ bound ih =>
    rw [run_iterate_succ] at hRun
    cases hp : p parser.current with
    | false =>
      rw [run_bind_ok parser (h.stops parser hp)] at hRun
      cases hRun
      exact ⟨[], .refl _, .nil⟩
    | true =>
      obtain ⟨led, hMore, hStep⟩ := h.goes parser hReady hp
      rw [run_bind_ok parser hMore, if_pos rfl, run_bind] at hRun
      split at hRun
      · rename_i c middle hRound
        obtain ⟨ts, hPasses, hForm⟩ := (hStep a).sound hRound
        obtain ⟨us, hPasses', hRest⟩ := ih (hPasses.ready hReady) hRun
        exact ⟨ts ++ us, hPasses.trans hPasses', .cons hForm hRest⟩
      · cases hRun

theorem LoopReads.complete (h : LoopReads limit more step p round follow) {bound : Nat}
    {parser : Parser} {ts us : List Token} {a b : α} (hReady : Ready limit parser)
    (hRounds : Rounds round a ts b) (hRest : parser.rest = ts ++ us) (hBound : ts.length ≤ bound)
    (hNext : follow (us.headD parser.stop)) (hEnd : p (us.headD parser.stop) = false) :
    ∃ after, parser.run (iterate more step bound a) = (.ok b, after) ∧ Passes parser ts after := by
  induction hRounds generalizing parser bound with
  | nil =>
    refine ⟨parser, ?_, .refl _⟩
    cases bound with
    | zero => rfl
    | succ bound =>
      have hCurrent : parser.current = us.headD parser.stop := by
        rw [current, hRest, List.nil_append]
      rw [run_iterate_succ, run_bind_ok parser (h.stops parser (by rw [hCurrent, hEnd]))]
      rfl
  | @cons a c b ts vs hFirst hRounds ih =>
    obtain ⟨t, ts', rfl, hp⟩ := h.begins hFirst
    rw [List.append_assoc] at hRest
    have hCurrent : parser.current = t := current_of_rest hRest
    obtain ⟨led, hMore, hStep⟩ := h.goes parser hReady (by rw [hCurrent, hp])
    have hInside : follow ((vs ++ us).headD parser.stop) := by
      cases hRounds with
      | nil => exact hNext
      | cons hSecond _ =>
        obtain ⟨t', ts'', rfl, hp'⟩ := h.begins hSecond
        exact h.goesOn t' hp'
    obtain ⟨middle, hRound, hPasses⟩ := (hStep a).complete hRest hFirst hInside
    have hMiddle : middle.rest = vs ++ us := by
      simpa [hRest] using hPasses.rest.symm
    cases bound with
    | zero => simp at hBound
    | succ bound =>
      have hFits : vs.length ≤ bound := by
        simp only [List.length_append, List.length_cons] at hBound
        omega
      obtain ⟨after, hRun, hPasses'⟩ := ih (hPasses.ready hReady) hMiddle hFits
        (by rwa [hPasses.stop]) (by rwa [hPasses.stop])
      refine ⟨after, ?_, hPasses.trans hPasses'⟩
      rw [run_iterate_succ, run_bind_ok parser hMore, if_pos rfl, run_bind_ok led hRound, hRun]

/-- The bound of a loop is never used up, because every round takes a token. -/
theorem LoopReads.reads (h : LoopReads limit more step p round follow) (a : α) :
    Reads limit (repeatWhile more step a) (Rounds round a)
      (fun t => follow t ∧ p t = false) := by
  intro parser hReady
  rw [run_repeatWhile]
  constructor
  · intro b after hRun
    exact h.sound hReady hRun
  · intro ts us b hRest hRounds hNext
    refine h.complete hReady hRounds hRest ?_ hNext.1 hNext.2
    rw [hRest, List.length_append]
    omega

theorem LoopReads.after (h : LoopReads limit more step p round follow) {first : ParseM β}
    {firstForm : List Token → β → Prop} (start : β → α)
    (hFirst : Reads limit first firstForm follow) :
    Reads limit (first >>= fun b => repeatWhile more step (start b))
      (Seq firstForm fun b => Rounds round (start b)) (fun t => follow t ∧ p t = false) := by
  refine hFirst.bind (fun b => h.reads (start b)) ?_
  intro b ts a t hRounds hNext
  cases hRounds with
  | nil => exact hNext.1
  | cons hRound _ =>
    obtain ⟨u, us, rfl, hp⟩ := h.begins hRound
    exact h.goesOn u hp

/-- A loop whose test steps over the token by which it goes on. -/
theorem loopReads_stepIf {test : ParseM Bool} {form : α → List Token → α → Prop}
    (hTest : Looks test p) (hStep : ∀ a, Reads limit (step a) (form a) follow)
    (hFollow : ∀ t, p t = true → follow t) :
    LoopReads limit (stepIf test) step p (fun a => Led p fun _ => form a) follow where
  stops parser hp := by
    rw [run_stepIf parser (hTest.run parser), hp]
    rfl
  goes parser hReady hp := by
    obtain ⟨us, hRest⟩ := hReady.rest_eq (hTest.atEnd _ hp)
    refine ⟨parser.next, ?_, fun a => ?_⟩
    · rw [run_stepIf parser (hTest.run parser), hp]
      rfl
    · exact (hStep a parser.next ((Passes.next hRest).ready hReady)).led hRest hp
  begins := by
    rintro a ts b ⟨t, us, rfl, hp, -⟩
    exact ⟨t, us, rfl, hp⟩
  goesOn := hFollow

end

end SqlStore.Parser
