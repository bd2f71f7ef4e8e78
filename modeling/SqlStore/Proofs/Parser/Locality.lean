import SqlStore.Proofs.Parser.Cause
import SqlStore.Proofs.Parser.Paired

/-!
# Local readers

A run depends on nothing but the tokens from where it begins to where it ends, the token there
included: another parser that sees the same tokens so far takes the same steps, whatever comes
behind. A run that fails with an unexpected token does not even depend on what is behind that token.
Readers with this property are called local here. Bounds of loops and depths may differ between the
two parsers, as long as they are enough for the tokens ahead.
-/
namespace SqlStore

def ParseFault.isUnexpected : ParseFault → Bool
  | .unexpectedToken _ _ => true
  | _ => false

namespace Parser
set_option autoImplicit false

variable {α β : Type} {limit limit' last : Nat} {p q : Parser}

/-- The parsers stand at one position and see the same tokens up to the position `last`. -/
structure Abreast (last : Nat) (p q : Parser) : Prop where
  position : q.position = p.position
  ahead : ∀ i, p.position + i ≤ last → (q.rest ++ [q.stop])[i]? = (p.rest ++ [p.stop])[i]?

theorem Abreast.current (h : Abreast last p q) (hLast : p.position ≤ last) :
    q.current = p.current := by
  obtain ⟨us, hp⟩ := exists_ahead p
  obtain ⟨vs, hq⟩ := exists_ahead q
  have hFirst := h.ahead 0 hLast
  rw [hp, hq] at hFirst
  exact Option.some_inj.mp hFirst

theorem Abreast.moved {p' q' : Parser} {ts : List Token} (h : Abreast last p q)
    (hp : Passes p ts p') (hq : Passes q ts q') : Abreast last p' q' where
  position := by rw [hp.position, hq.position, h.position]
  ahead i hi := by
    rw [hp.position] at hi
    have hMoved := h.ahead (ts.length + i) (by omega)
    rwa [hp.ahead, hq.ahead, List.getElem?_append_right (Nat.le_add_right _ _),
      List.getElem?_append_right (Nat.le_add_right _ _), Nat.add_sub_cancel_left] at hMoved

/-- The last position that a run may depend on. -/
def reach : Except ParseError α × Parser → Nat
  | (.ok _, after) => after.position
  | (.error e, after) => if e.fault.isUnexpected then e.index else after.position

/-- The run passes these tokens, and so does that of every parser which sees the same up to where the
run reaches, with the same result. -/
structure Confined (limit' : Nat) (reader reader' : ParseM α) (p : Parser) (ts : List Token) :
    Prop where
  passes : Passes p ts (p.run reader).2
  fromStart : p.position ≤ reach (p.run reader)
  toEnd : reach (p.run reader) ≤ (p.run reader).2.position
  same : ∀ {last : Nat} {q : Parser}, Abreast last p q → Ready limit' q →
    reach (p.run reader) ≤ last →
    (q.run reader').1 = (p.run reader).1 ∧ Passes q ts (q.run reader').2

def LocalAt (limit' : Nat) (reader reader' : ParseM α) (p : Parser) : Prop :=
  ∃ ts, Confined limit' reader reader' p ts

/-- The second reader may have other bounds, which are enough for `limit'` tokens ahead. -/
def Local (limit limit' : Nat) (reader reader' : ParseM α) : Prop :=
  ∀ p, Ready limit p → LocalAt limit' reader reader' p

/-! ### Combining readers -/

theorem Confined.broken {first first' : ParseM α} {second second' : α → ParseM β}
    {e : ParseError} {after : Parser} {ts : List Token} (h : Confined limit' first first' p ts)
    (hRun : p.run first = (.error e, after)) :
    Confined limit' (first >>= second) (first' >>= second') p ts := by
  have hAll : p.run (first >>= second) = (.error e, after) := run_bind_error p hRun
  have hReach : reach (p.run (first >>= second)) = reach (p.run first) := by
    rw [hAll, hRun]
    rfl
  constructor
  · rw [hAll]
    simpa [hRun] using h.passes
  · rw [hReach]
    exact h.fromStart
  · rw [hReach, hAll]
    simpa [hRun] using h.toEnd
  · intro last q hAbreast hReady hLast
    rw [hReach] at hLast
    obtain ⟨hSame, hPasses⟩ := h.same hAbreast hReady hLast
    rw [hRun] at hSame
    have hRun' : q.run first' = (.error e, (q.run first').2) := Prod.ext hSame rfl
    rw [run_bind_error q hRun', hAll]
    exact ⟨rfl, hPasses⟩

/-- The tokens that the first reader passes are no longer ahead of the second. -/
theorem Confined.followed {first first' : ParseM α} {second second' : α → ParseM β} {a : α}
    {limit'' : Nat} {middle : Parser} {ts us : List Token}
    (h : Confined limit' first first' p ts) (hRun : p.run first = (.ok a, middle))
    (hSecond : Confined limit'' (second a) (second' a) middle us)
    (hLimit : limit' ≤ limit'' + ts.length) :
    Confined limit' (first >>= second) (first' >>= second') p (ts ++ us) := by
  have hAll : p.run (first >>= second) = middle.run (second a) := run_bind_ok p hRun
  have hFirst := h.passes
  rw [hRun] at hFirst
  have hPosition : p.position ≤ middle.position := by
    rw [hFirst.position]
    exact Nat.le_add_right _ _
  constructor
  · rw [hAll]
    exact hFirst.trans hSecond.passes
  · rw [hAll]
    exact hPosition.trans hSecond.fromStart
  · rw [hAll]
    exact hSecond.toEnd
  · intro last q hAbreast hReady hLast
    rw [hAll] at hLast ⊢
    have hMiddle : reach (p.run first) ≤ last := by
      rw [hRun]
      exact hSecond.fromStart.trans hLast
    obtain ⟨hSame, hPasses⟩ := h.same hAbreast hReady hMiddle
    rw [hRun] at hSame
    have hRun' : q.run first' = (.ok a, (q.run first').2) := Prod.ext hSame rfl
    rw [run_bind_ok q hRun']
    have hReady' : Ready limit'' (q.run first').2 := by
      have hLength := hReady.rest
      rw [hPasses.length_rest] at hLength
      exact ⟨(hPasses.ready hReady).stop, by omega⟩
    obtain ⟨hSame', hPasses'⟩ := hSecond.same (hAbreast.moved hFirst hPasses) hReady' hLast
    exact ⟨hSame', hPasses.trans hPasses'⟩

theorem Confined.mono {reader reader' : ParseM α} {ts : List Token} {limit'' : Nat}
    (h : Confined limit' reader reader' p ts) (hLimit : limit'' ≤ limit') :
    Confined limit'' reader reader' p ts :=
  ⟨h.passes, h.fromStart, h.toEnd, fun hAbreast hReady =>
    h.same hAbreast ⟨hReady.stop, hReady.rest.trans hLimit⟩⟩

theorem LocalAt.bind {first first' : ParseM α} {second second' : α → ParseM β}
    (h : LocalAt limit' first first' p)
    (hSecond : ∀ a middle, p.run first = (.ok a, middle) →
      LocalAt limit' (second a) (second' a) middle) :
    LocalAt limit' (first >>= second) (first' >>= second') p := by
  obtain ⟨ts, hFirst⟩ := h
  rcases hRun : p.run first with ⟨e | a, middle⟩
  · exact ⟨ts, hFirst.broken hRun⟩
  · obtain ⟨us, hSecond⟩ := hSecond a middle hRun
    exact ⟨ts ++ us, hFirst.followed hRun hSecond (Nat.le_add_right _ _)⟩

theorem LocalAt.ready {reader reader' : ParseM α} {a : α} {after : Parser}
    (h : LocalAt limit' reader reader' p) (hReady : Ready limit p)
    (hRun : p.run reader = (.ok a, after)) : Ready limit after := by
  obtain ⟨ts, hConfined⟩ := h
  have hPasses := hConfined.passes
  rw [hRun] at hPasses
  exact hPasses.ready hReady

theorem Local.bind {first first' : ParseM α} {second second' : α → ParseM β}
    (h : Local limit limit' first first')
    (hSecond : ∀ a, Local limit limit' (second a) (second' a)) :
    Local limit limit' (first >>= second) (first' >>= second') :=
  fun p hReady => (h p hReady).bind fun a middle hRun =>
    hSecond a middle ((h p hReady).ready hReady hRun)

theorem Local.mono {reader reader' : ParseM α} {few few' : Nat}
    (h : Local limit limit' reader reader') (hLimit : few ≤ limit) (hLimit' : few' ≤ limit') :
    Local few few' reader reader' := by
  intro p hReady
  obtain ⟨ts, hConfined⟩ := h p ⟨hReady.stop, hReady.rest.trans hLimit⟩
  exact ⟨ts, hConfined.mono hLimit'⟩

/-- The readers may be exchanged for others that run alike from here. -/
theorem LocalAt.congr {reader reader' other other' : ParseM α} (h : LocalAt limit' other other' p)
    (hRun : p.run reader = p.run other)
    (hRun' : ∀ q : Parser, q.current = p.current → q.run reader' = q.run other') :
    LocalAt limit' reader reader' p := by
  obtain ⟨ts, hConfined⟩ := h
  refine ⟨ts, ?_⟩
  constructor
  · rw [hRun]
    exact hConfined.passes
  · rw [hRun]
    exact hConfined.fromStart
  · rw [hRun]
    exact hConfined.toEnd
  · intro last q hAbreast hReady hLast
    rw [hRun] at hLast ⊢
    rw [hRun' q (hAbreast.current (hConfined.fromStart.trans hLast))]
    exact hConfined.same hAbreast hReady hLast

theorem Passes.unique {after : Parser} {ts us : List Token} (h : Passes p ts after)
    (h' : Passes p us after) : ts = us :=
  List.append_cancel_right (h.rest.symm.trans h'.rest)

/-- A reader that takes its bound from the tokens ahead. -/
theorem localAt_of_bounded {reader reader' : ParseM α} (bounded : Nat → ParseM α)
    (hRun : ∀ q : Parser, q.run reader' = q.run (bounded q.rest.length))
    (h : ∀ bound, bound ≤ limit' → LocalAt bound reader (bounded bound) p) :
    LocalAt limit' reader reader' p := by
  obtain ⟨ts, hConfined⟩ := h 0 (Nat.zero_le _)
  refine ⟨ts, hConfined.passes, hConfined.fromStart, hConfined.toEnd, ?_⟩
  intro last q hAbreast hReady hLast
  obtain ⟨us, hBounded⟩ := h q.rest.length hReady.rest
  rw [hRun, hConfined.passes.unique hBounded.passes]
  exact hBounded.same hAbreast ⟨hReady.stop, Nat.le_refl _⟩ hLast

/-! ### Single tokens -/

/-- A reader that looks at the current token only, and steps over it or not. -/
theorem local_glance {reader : ParseM α} (f : Token → Nat → Except ParseError α)
    (steps : Token → Bool) (hEnd : ∀ t, steps t = true → t.kind ≠ .endOfInput)
    (hIndex : ∀ t i e, f t i = .error e → e.fault.isUnexpected = true → e.index = i)
    (hRun : ∀ parser : Parser, parser.run reader = (f parser.current parser.position,
      if steps parser.current then parser.next else parser)) :
    Local limit limit' reader reader := by
  have hPasses : ∀ {limit : Nat} (parser : Parser), Ready limit parser →
      Passes parser (if steps parser.current then [parser.current] else [])
        (if steps parser.current then parser.next else parser) := by
    intro limit parser hReady
    split
    · rename_i hSteps
      obtain ⟨us, hRest⟩ := hReady.rest_eq (hEnd _ hSteps)
      exact .next hRest
    · exact .refl parser
  intro p hReady
  have hPosition := (hPasses p hReady).position
  have hReach : reach (p.run reader) = p.position ∨
      reach (p.run reader) = (p.run reader).2.position := by
    rw [hRun]
    cases hf : f p.current p.position with
    | ok a => exact .inr rfl
    | error e =>
      rw [reach]
      split
      · rename_i hUnexpected
        exact .inl (hIndex _ _ _ hf hUnexpected)
      · exact .inr rfl
  have hEndPosition : p.position ≤ (p.run reader).2.position := by
    rw [hRun, hPosition]
    exact Nat.le_add_right _ _
  refine ⟨if steps p.current then [p.current] else [], ?_, by omega, by omega, ?_⟩
  · rw [hRun]
    exact hPasses p hReady
  · intro last q hAbreast hReady' hLast
    have hCurrent := hAbreast.current (by omega : p.position ≤ last)
    have hPasses' := hPasses q hReady'
    rw [hRun, hRun, hAbreast.position]
    rw [hCurrent] at hPasses' ⊢
    exact ⟨rfl, hPasses'⟩

/-- A reader that never fails. -/
theorem local_view {reader : ParseM α} (f : Token → Nat → α) (steps : Token → Bool)
    (hEnd : ∀ t, steps t = true → t.kind ≠ .endOfInput)
    (hRun : ∀ parser : Parser, parser.run reader = (.ok (f parser.current parser.position),
      if steps parser.current then parser.next else parser)) :
    Local limit limit' reader reader := by
  refine local_glance (fun t i => .ok (f t i)) steps hEnd ?_ hRun
  intro t i e hError
  cases hError

theorem never_steps : ∀ t : Token, false = true → t.kind ≠ .endOfInput := by
  intro t h
  cases h

theorem local_pure (a : α) : Local limit limit' (pure a) (pure a) :=
  local_view (fun _ _ => a) (fun _ => false) never_steps fun _ => rfl

theorem LocalAt.map {reader reader' : ParseM α} (h : LocalAt limit' reader reader' p)
    (hReady : Ready limit p) (f : α → β) :
    LocalAt limit' (reader >>= fun a => pure (f a)) (reader' >>= fun a => pure (f a)) p :=
  h.bind fun a middle hRun => local_pure (f a) middle (h.ready hReady hRun)

theorem Local.map {reader reader' : ParseM α} (h : Local limit limit' reader reader')
    (f : α → β) :
    Local limit limit' (reader >>= fun a => pure (f a)) (reader' >>= fun a => pure (f a)) :=
  h.bind fun a => local_pure (f a)

theorem local_fail {fault : ParseFault} (h : fault.isUnexpected = false) (i : Nat) :
    Local limit limit' (fail fault i : ParseM α) (fail fault i) := by
  refine local_glance (fun _ _ => .error ⟨fault, i⟩) (fun _ => false) never_steps ?_ fun _ => rfl
  intro t j e hError hUnexpected
  cases hError
  cases h.symm.trans hUnexpected

theorem local_unexpected (expected : Expectation) :
    Local limit limit' (unexpected expected : ParseM α) (unexpected expected) := by
  refine local_glance (fun t i => .error ⟨.unexpectedToken expected t, i⟩) (fun _ => false)
    never_steps ?_ fun _ => rfl
  intro t i e hError _
  cases hError
  rfl

theorem local_index : Local limit limit' index index :=
  local_view (fun _ i => i) (fun _ => false) never_steps fun _ => rfl

theorem local_peek : Local limit limit' peek peek :=
  local_view (fun t _ => t) (fun _ => false) never_steps fun _ => rfl

theorem local_look {test : ParseM Bool} {f : Token → Bool} (h : Looks test f) :
    Local limit limit' test test :=
  local_view (fun t _ => f t) (fun _ => false) never_steps h.run

theorem local_stepIf {test : ParseM Bool} {f : Token → Bool} (h : Looks test f) :
    Local limit limit' (stepIf test) (stepIf test) :=
  local_view (fun t _ => f t) f h.atEnd fun parser => run_stepIf parser (h.run parser)

/-- A reader that takes a token for which there is a value, and expects no other. -/
theorem local_takeToken {reader : ParseM α} (value : Token → Option α) (expected : Expectation)
    (hEnd : ∀ t a, value t = some a → t.kind ≠ .endOfInput)
    (hRun : ∀ parser : Parser, parser.run reader = Pairing.takeToken value expected parser) :
    Local limit limit' reader reader := by
  refine local_glance
    (fun t i => (value t).elim (.error ⟨.unexpectedToken expected t, i⟩) .ok)
    (fun t => (value t).isSome) ?_ ?_ ?_
  · intro t hSome
    obtain ⟨a, ha⟩ := Option.isSome_iff_exists.mp hSome
    exact hEnd t a ha
  · intro t i e hError _
    cases hValue : value t with
    | some a =>
      rw [hValue] at hError
      cases hError
    | none =>
      rw [hValue] at hError
      cases hError
      rfl
  · intro parser
    rw [hRun, Pairing.takeToken]
    cases value parser.current <;> rfl

theorem local_consume {kind : TokenKind} (expected : Expectation) (hKind : kind ≠ .endOfInput) :
    Local limit limit' (consume kind expected) (consume kind expected) := by
  refine local_takeToken (fun t => if t.kind = kind then some t else none) expected ?_ ?_
  · intro t _ h
    rw [(Option.ite_none_right_eq_some.mp h).1]
    exact hKind
  · intro parser
    rw [run_consume, Pairing.takeToken]
    split <;> simp_all

theorem local_consumeKeyword (keyword : Keyword) :
    Local limit limit' (consumeKeyword keyword) (consumeKeyword keyword) := by
  refine local_takeToken (fun t => if t.isKeyword keyword then some () else none) (.keyword keyword)
    ?_ ?_
  · intro t _ h
    simp [kind_of_isKeyword (Option.ite_none_right_eq_some.mp h).1]
  · intro parser
    rw [run_consumeKeyword, Pairing.takeToken]
    split <;> simp_all

theorem local_record (event : ParseEvent) : Local limit limit' (record event) (record event) := by
  intro p hReady
  have hPasses : ∀ parser : Parser, Passes parser [] (parser.run (record event)).2 :=
    fun _ => ⟨rfl, rfl, rfl⟩
  exact ⟨[], hPasses p, Nat.le_refl _, Nat.le_refl _, fun _ _ _ => ⟨rfl, hPasses _⟩⟩

/-- A token that is refused after it has been taken is the last one that counts. -/
theorem localAt_refused {reader reader' : ParseM α} (fault : ParseFault)
    (hReady : Ready limit p) (hKind : p.current.kind ≠ .endOfInput)
    (hRun : p.run reader = (.error ⟨fault, p.position⟩, p.next))
    (hRun' : ∀ q : Parser, q.current = p.current → q.position = p.position →
      q.run reader' = (.error ⟨fault, p.position⟩, q.next)) :
    LocalAt limit' reader reader' p := by
  obtain ⟨us, hRest⟩ := hReady.rest_eq hKind
  have hNext := Passes.next hRest
  have hForward : p.position ≤ p.next.position := by
    rw [hNext.position]
    exact Nat.le_add_right _ _
  have hReach : p.position ≤ reach (p.run reader) ∧ reach (p.run reader) ≤ p.next.position := by
    rw [hRun, reach]
    split
    · exact ⟨Nat.le_refl _, hForward⟩
    · exact ⟨hForward, Nat.le_refl _⟩
  refine ⟨[p.current], ?_, hReach.1, ?_, ?_⟩
  · rw [hRun]
    exact hNext
  · have hEnd := hReach.2
    rwa [hRun] at hEnd ⊢
  · intro last q hAbreast hReady' hLast
    have hCurrent := hAbreast.current (hReach.1.trans hLast)
    obtain ⟨vs, hRest'⟩ := hReady'.rest_eq (by rwa [hCurrent])
    rw [hRun, hRun' q hCurrent hAbreast.position]
    rw [hCurrent] at hRest'
    exact ⟨rfl, .next hRest'⟩

/-- A token of some kind, which may yet be refused with its index. -/
theorem local_checkedToken {kind : TokenKind} {expected : Expectation}
    {second second' : Nat → Token → ParseM α} (hKind : kind ≠ .endOfInput)
    (hSecond : ∀ i t, t.kind = kind →
      (∃ fault, second i t = fail fault i ∧ second' i t = fail fault i) ∨
      Local limit limit' (second i t) (second' i t)) :
    Local limit limit' (index >>= fun i => consume kind expected >>= second i)
      (index >>= fun i => consume kind expected >>= second' i) := by
  intro p hReady
  have hConsume := run_consume p kind expected
  by_cases hIs : p.current.kind = kind
  · rw [if_pos hIs] at hConsume
    rcases hSecond p.position p.current hIs with ⟨fault, hFail, hFail'⟩ | hLocal
    · refine localAt_refused fault hReady (by rwa [hIs]) ?_ ?_
      · rw [run_bind_ok p (run_index p), run_bind_ok p hConsume, hFail]
        rfl
      · intro q hCurrent hPosition
        have hConsume' := run_consume q kind expected
        rw [hCurrent, if_pos hIs] at hConsume'
        rw [run_bind_ok q (run_index q), run_bind_ok q hConsume', hPosition, hFail']
        rfl
    · refine (local_index p hReady).bind ?_
      rintro _ _ ⟨⟩
      have hFirst : LocalAt limit' (consume kind expected) _ p :=
        local_consume expected hKind p hReady
      refine hFirst.bind ?_
      intro t middle hRun
      have hMiddle := hFirst.ready hReady hRun
      rw [hConsume] at hRun
      cases hRun
      exact hLocal _ hMiddle
  · rw [if_neg hIs] at hConsume
    refine (local_index p hReady).bind ?_
    rintro _ _ ⟨⟩
    have hLocal : LocalAt limit' (consume kind expected) _ p :=
      local_consume expected hKind p hReady
    obtain ⟨ts, hFirst⟩ := hLocal
    exact ⟨ts, hFirst.broken hConsume⟩

/-! ### Choices and loops -/

theorem Local.ite {test : ParseM Bool} {yes yes' no no' : ParseM α}
    (h : Local limit limit' test test) (hYes : Local limit limit' yes yes')
    (hNo : Local limit limit' no no') :
    Local limit limit' (test >>= fun b => if b then yes else no)
      (test >>= fun b => if b then yes' else no') := by
  refine h.bind fun b => ?_
  cases b
  · exact hNo
  · exact hYes

theorem local_parenthesized {inner inner' : ParseM α} (h : Local limit limit' inner inner') :
    Local (limit + 1) (limit' + 1) (parenthesized inner) (parenthesized inner') := by
  intro p hReady
  have hOpening : Local (limit + 1) (limit' + 1) (consume .parenOpen .parenOpen) _ :=
    local_consume .parenOpen (by decide)
  obtain ⟨ts, hFirst⟩ := hOpening p hReady
  rcases hRun : p.run (consume .parenOpen .parenOpen) with ⟨e | opening, middle⟩
  · exact ⟨ts, hFirst.broken hRun⟩
  · have hReads : Reads (limit + 1) (consume .parenOpen .parenOpen) _ anyToken :=
      reads_consume .parenOpen .parenOpen (by decide)
    obtain ⟨us, hPasses, rfl, -⟩ := (hReads p hReady).sound hRun
    have hFirstPasses := hFirst.passes
    rw [hRun] at hFirstPasses
    obtain rfl := hFirstPasses.unique hPasses
    have hInner := h.bind fun a =>
      (local_consume .parenClose (by decide : TokenKind.parenClose ≠ .endOfInput)).map fun _ => a
    obtain ⟨vs, hSecond⟩ := hInner middle (hPasses.ready_of_cons hReady)
    exact ⟨_, hFirst.followed hRun hSecond (Nat.le_refl _)⟩

/-- Where a token is left to the one parser, there is one left to the other. -/
theorem LocalAt.ofTokenAhead {reader reader' other : ParseM α} {bound : Nat}
    (h : LocalAt bound reader other p) (hKind : p.current.kind ≠ .endOfInput) :
    LocalAt 0 reader reader' p := by
  obtain ⟨ts, hConfined⟩ := h
  refine ⟨ts, hConfined.passes, hConfined.fromStart, hConfined.toEnd, ?_⟩
  intro last q hAbreast hReady hLast
  have hCurrent := hAbreast.current (hConfined.fromStart.trans hLast)
  obtain ⟨us, hRest⟩ := hReady.rest_eq (by rwa [hCurrent])
  have hNone := hReady.rest
  rw [hRest] at hNone
  exact absurd hNone (Nat.not_succ_le_zero _)

/-- One round of a loop, with no result if the loop is to stop. -/
def round (more : ParseM Bool) (step : α → ParseM α) (a : α) : ParseM (Option α) :=
  more >>= fun yes => if yes then step a >>= fun b => pure (some b) else pure none

theorem iterate_succ_eq (more : ParseM Bool) (step : α → ParseM α) (bound : Nat) (a : α) :
    iterate more step (bound + 1) a = round more step a >>= fun result =>
      match result with
      | none => pure a
      | some b => iterate more step bound b := by
  rw [iterate, round, bind_assoc]
  refine bind_congr fun yes => ?_
  cases yes
  · rfl
  · simp only [if_true, bind_assoc, pure_bind]

/-- What a loop needs to be local: no round begins at the end, and every round takes a token. -/
structure LocalLoop (limit limit' : Nat) (more : ParseM Bool) (step step' : α → ParseM α) :
    Prop where
  stops : ∀ q : Parser, q.current.kind = .endOfInput → q.run more = (.ok false, q)
  rounds : ∀ a, Local limit limit' (round more step a) (round more step' a)
  takes : ∀ a b p after, Ready limit p → p.run (round more step a) = (.ok (some b), after) →
    after.rest.length < p.rest.length

section

variable {more : ParseM Bool} {step step' : α → ParseM α}

theorem LocalLoop.run_atEnd (h : LocalLoop limit limit' more step step')
    (hKind : p.current.kind = .endOfInput) (bound : Nat) (a : α) :
    p.run (iterate more step bound a) = p.run (pure a) ∧
      p.run (iterate more step' bound a) = p.run (pure a) := by
  cases bound with
  | zero => exact ⟨rfl, rfl⟩
  | succ bound =>
    constructor
    · rw [run_iterate_succ, run_bind_ok p (h.stops p hKind)]
      rfl
    · rw [run_iterate_succ, run_bind_ok p (h.stops p hKind)]
      rfl

/-- The bounds may differ, as long as both are enough for the tokens ahead. -/
theorem LocalLoop.iterate (h : LocalLoop limit limit' more step step') {bound bound' : Nat}
    (hBound' : bound' ≤ limit') (hReady : Ready limit p) (hBound : p.rest.length ≤ bound) (a : α) :
    LocalAt bound' (iterate more step bound a) (iterate more step' bound' a) p := by
  induction bound generalizing bound' p a with
  | zero =>
    have hKind : p.current.kind = .endOfInput := by
      by_contra hKind
      obtain ⟨us, hRest⟩ := hReady.rest_eq hKind
      rw [hRest] at hBound
      exact Nat.not_succ_le_zero _ hBound
    refine (local_pure a p hReady).congr (h.run_atEnd hKind 0 a).1 fun q hCurrent => ?_
    exact (h.run_atEnd (hCurrent ▸ hKind) bound' a).2
  | succ bound ih =>
    by_cases hKind : p.current.kind = .endOfInput
    · refine (local_pure a p hReady).congr (h.run_atEnd hKind _ a).1 fun q hCurrent => ?_
      exact (h.run_atEnd (hCurrent ▸ hKind) bound' a).2
    have hMore : ∀ {few bound'}, few ≤ bound' + 1 → few ≤ limit' → bound' ≤ limit' → LocalAt few
        (Parser.iterate more step (bound + 1) a) (Parser.iterate more step' (bound' + 1) a) p := by
      intro few bound' hFew hLimit hBound'
      rw [iterate_succ_eq, iterate_succ_eq]
      obtain ⟨ts, hFirst⟩ := h.rounds a p hReady
      have hFirst' := hFirst.mono hLimit
      have hPasses := hFirst.passes
      rcases hRun : p.run (round more step a) with ⟨e | _ | b, middle⟩ <;>
        simp only [hRun] at hPasses
      · exact ⟨ts, hFirst'.broken hRun⟩
      · have hPure : LocalAt few (pure a) (pure a) middle :=
          local_pure a middle (hPasses.ready hReady)
        obtain ⟨us, hSecond⟩ := hPure
        exact ⟨ts ++ us, hFirst'.followed hRun hSecond (Nat.le_add_right _ _)⟩
      · have hTakes := h.takes a b p middle hReady hRun
        have hLength := hPasses.length_rest
        obtain ⟨us, hSecond⟩ := ih hBound' (hPasses.ready hReady) (by omega) b
        exact ⟨ts ++ us, hFirst'.followed hRun hSecond (by omega)⟩
    cases bound' with
    | zero => exact (hMore (Nat.zero_le _) hBound' (Nat.zero_le _)).ofTokenAhead hKind
    | succ bound' => exact hMore (Nat.le_refl _) hBound' (Nat.le_of_succ_le hBound')

theorem LocalLoop.repeatWhile (h : LocalLoop limit limit' more step step') (a : α) :
    Local limit limit' (repeatWhile more step a) (repeatWhile more step' a) := by
  intro p hReady
  refine localAt_of_bounded (fun bound => Parser.iterate more step' bound a)
    (fun q => run_repeatWhile q more step' a) fun bound hBound => ?_
  exact (h.iterate hBound hReady (Nat.le_refl _) a).congr (run_repeatWhile p more step a)
    fun _ _ => rfl

end

theorem localLoop_stepIf {test : ParseM Bool} {f : Token → Bool} {step step' : α → ParseM α}
    (hTest : Looks test f) (hStep : ∀ a, Local limit limit' (step a) (step' a)) :
    LocalLoop limit limit' (stepIf test) step step' where
  stops q hKind := by
    have hNo : f q.current = false := by
      by_contra hYes
      exact hTest.atEnd _ (by simpa using hYes) hKind
    rw [run_stepIf q (hTest.run q), hNo]
    rfl
  rounds a := (local_stepIf hTest).ite ((hStep a).map some) (local_pure none)
  takes a b p after hReady hRun := by
    rw [round, run_bind_ok p (run_stepIf p (hTest.run p))] at hRun
    cases hYes : f p.current with
    | false =>
      rw [hYes] at hRun
      cases hRun
    | true =>
      rw [hYes] at hRun
      obtain ⟨us, hRest⟩ := hReady.rest_eq (hTest.atEnd _ hYes)
      have hNext := Passes.next hRest
      obtain ⟨ts, hConfined⟩ := (hStep a).map some p.next (hNext.ready hReady)
      have hPasses := hNext.trans hConfined.passes
      simp only [if_true] at hRun
      simp only [hRun] at hPasses
      have hLength := hPasses.length_rest
      rw [List.length_append, List.length_singleton] at hLength
      omega

end Parser
end SqlStore
