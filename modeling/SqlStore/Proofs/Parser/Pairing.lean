import Mathlib.Data.List.Forall2
import SqlStore.Proofs.Parser.Condition

/-!
# Parsers beside each other

No reader looks at the offset of a token, or at the blanks inside a keyword. So two parsers with
tokens that agree in all else take the same steps, and their results agree as their tokens do. The
second parser may also stand at other positions, and it may have more tokens behind those of the
first: a reader that takes no terminator cannot tell a terminator from the end.

`Pairing` says how two parsers correspond, and `Matches` that two readers keep them so.
-/
namespace SqlStore
set_option autoImplicit false

/-- No reader can tell one token from the other. -/
structure Token.Alike (t u : Token) : Prop where
  kind : t.kind = u.kind
  lexeme : t.lexeme = u.lexeme ∨
    t.kind = .keyword ∧ ∃ k, Keyword.ofText? t.lexeme = some k ∧ Keyword.ofText? u.lexeme = some k

namespace Token.Alike

variable {t u : Token}

theorem lexeme_of_kind (h : t.Alike u) (hKind : t.kind ≠ .keyword) : t.lexeme = u.lexeme :=
  h.lexeme.resolve_right fun ⟨hKeyword, _⟩ => hKind hKeyword

theorem keyword (h : t.Alike u) : Keyword.ofText? t.lexeme = Keyword.ofText? u.lexeme := by
  rcases h.lexeme with hLexeme | ⟨-, k, ht, hu⟩
  · rw [hLexeme]
  · rw [ht, hu]

theorem isKeyword (h : t.Alike u) (k : Keyword) : t.isKeyword k = u.isKeyword k := by
  rw [Token.isKeyword, Token.isKeyword, h.kind, h.keyword]

theorem isConnective (h : t.Alike u) (word : String) :
    t.isConnective word = u.isConnective word := by
  rw [Token.isConnective, Token.isConnective, h.kind]
  cases hKind : u.kind == .connective with
  | false => rfl
  | true =>
    have hNot : t.kind ≠ .keyword := by
      rw [h.kind, beq_iff_eq.mp hKind]
      decide
    rw [h.lexeme_of_kind hNot]

theorem literal? (h : t.Alike u) : t.literal? = u.literal? := by
  have hKind := h.kind
  by_cases hKeyword : t.kind = .keyword
  · rw [Token.literal?, Token.literal?, ← hKind, hKeyword]
  · have hLexeme := h.lexeme_of_kind hKeyword
    simp only [Token.literal?, Token.unquoted, ← hKind, hLexeme]

theorem operandOf? (h : t.Alike u) : Parser.operandOf? t = Parser.operandOf? u := by
  rw [Parser.operandOf?, Parser.operandOf?, h.literal?, ← h.kind]
  split
  · rename_i hKind
    rw [h.lexeme_of_kind (by simp [hKind])]
  · rfl

end Token.Alike

namespace Parser

/-- How the tokens of two parsers correspond. The first parser has `length` tokens in all. The second
has a token for each of them, which has the position of the first one and `shift` more, and then
those of `tail` and the end mark `stop`. -/
structure Pairing where
  related : Token → Token → Prop
  alike : ∀ {t u : Token}, related t u → t.Alike u
  shift : Nat
  length : Nat
  tail : List Token
  terminated : ∀ t ∈ tail.head?, t.kind = .terminator
  stop : Token

namespace Pairing

theorem terminated_nil : ∀ t ∈ ([] : List Token).head?, t.kind = .terminator := by
  simp

/-- The tokens found at a position of the first parser and the corresponding one of the second. -/
def Found (w : Pairing) (position : Nat) (t u : Token) : Prop :=
  w.related t u ∨
    w.tail ≠ [] ∧ position = w.length ∧ t.kind = .endOfInput ∧ u.kind = .terminator

structure Beside (w : Pairing) (p q : Parser) : Prop where
  position : q.position = p.position + w.shift
  length : p.position + p.rest.length = w.length
  rest : ∃ front, q.rest = front ++ w.tail ∧ List.Forall₂ w.related p.rest front
  atEnd : p.stop.kind = .endOfInput
  stop : q.stop = w.stop
  stops : w.tail = [] → w.related p.stop w.stop

inductive Faults (w : Pairing) (position : Nat) : ParseFault → ParseFault → Prop
  | unexpectedToken (expected : Expectation) {t u : Token} (found : w.Found position t u) :
      Faults w position (.unexpectedToken expected t) (.unexpectedToken expected u)
  | same {fault : ParseFault} (noToken : ∀ expected t, fault ≠ .unexpectedToken expected t) :
      Faults w position fault fault

structure Errors (w : Pairing) (d e : ParseError) : Prop where
  index : e.index = d.index + w.shift
  fault : w.Faults d.index d.fault e.fault

variable {α β γ δ : Type}

/-- Both readers fail alike, or both succeed and no more than `room` tokens are left to the first
parser. -/
inductive Agrees (w : Pairing) (values : α → β → Prop) (room : Nat) :
    Except ParseError α × Parser → Except ParseError β × Parser → Prop
  | ok {a : α} {b : β} {p q : Parser} (value : values a b) (beside : w.Beside p q)
      (fits : p.rest.length ≤ room) : Agrees w values room (.ok a, p) (.ok b, q)
  | error {d e : ParseError} {p q : Parser} (errors : w.Errors d e) :
      Agrees w values room (.error d, p) (.error e, q)

/-- Beside each other and with at most `limit` tokens ahead, the readers agree and take at least
`cost` tokens if they succeed. -/
def Matches (w : Pairing) (limit cost : Nat) (values : α → β → Prop) (reader : ParseM α)
    (reader' : ParseM β) : Prop :=
  ∀ p q : Parser, w.Beside p q → p.rest.length ≤ limit →
    w.Agrees values (p.rest.length - cost) (p.run reader) (q.run reader')

variable {w : Pairing} {p q : Parser}

/-! ### Current tokens -/

/-- Either both parsers stand before tokens that correspond, or the first one is at its end. -/
theorem Beside.current_cases (h : w.Beside p q) :
    (p.rest ≠ [] ∧ w.related p.current q.current ∧ w.Beside p.next q.next ∧
        p.next.rest.length + 1 = p.rest.length) ∨
      p.rest = [] ∧ q.rest = w.tail ∧ w.Found p.position p.current q.current := by
  obtain ⟨front, hFront, hRelated⟩ := h.rest
  have hLength := h.length
  cases hRest : p.rest with
  | nil =>
    rw [hRest] at hRelated hLength
    cases hRelated
    refine .inr ⟨rfl, hFront, ?_⟩
    have hCurrent : p.current = p.stop := by rw [current, hRest, List.headD_nil]
    rw [hCurrent, current, hFront, List.nil_append]
    cases hTail : w.tail with
    | nil => exact .inl (by rw [List.headD_nil, h.stop]; exact h.stops hTail)
    | cons u us =>
      exact .inr ⟨by simp [hTail], by simpa using hLength, h.atEnd,
        w.terminated u (by simp [hTail])⟩
  | cons t ts =>
    rw [hRest] at hRelated hLength
    cases hRelated with
    | @cons _ u _ us hFirst hRelated =>
      have hRest' : q.rest = u :: (us ++ w.tail) := hFront
      refine .inl ⟨by simp, ?_, ?_, by simp [next, hRest]⟩
      · rwa [current_of_rest hRest, current_of_rest hRest']
      · have hPosition := h.position
        rw [List.length_cons] at hLength
        rw [next, next, hRest, hRest']
        exact ⟨by dsimp only; omega, by dsimp only; omega, ⟨us, rfl, hRelated⟩, h.atEnd, h.stop,
          h.stops⟩

theorem Beside.found (h : w.Beside p q) : w.Found p.position p.current q.current := by
  rcases h.current_cases with ⟨-, hRelated, -⟩ | ⟨-, -, hFound⟩
  · exact .inl hRelated
  · exact hFound

theorem Beside.kinds_of_rest_nil (h : w.Beside p q) (hRest : p.rest = []) :
    p.current.kind = .endOfInput ∧
      (q.current.kind = .endOfInput ∨ q.current.kind = .terminator) := by
  have hEnd : p.current.kind = .endOfInput := by
    rw [current, hRest]
    exact h.atEnd
  refine ⟨hEnd, ?_⟩
  rcases h.found with hTokens | ⟨-, -, -, hTerminator⟩
  · exact .inl ((w.alike hTokens).kind.symm.trans hEnd)
  · exact .inr hTerminator

theorem Beside.length_rest (h : w.Beside p q) : q.rest.length = p.rest.length + w.tail.length := by
  obtain ⟨front, hFront, hRelated⟩ := h.rest
  rw [hFront, List.length_append, hRelated.length_eq]

/-- The test answers alike on tokens that correspond, and no to the ends of the first parser. -/
structure Blind (w : Pairing) (f : Token → Bool) : Prop where
  alike : ∀ {t u : Token}, t.Alike u → f t = f u
  atEnd : ∀ {t : Token}, t.kind = .endOfInput → f t = false
  atTail : w.tail ≠ [] → ∀ {t : Token}, t.kind = .terminator → f t = false

theorem Blind.current {f : Token → Bool} (h : w.Blind f) (hBeside : w.Beside p q) :
    f p.current = f q.current := by
  rcases hBeside.found with hRelated | ⟨hTail, -, hEnd, hTerminator⟩
  · exact h.alike (w.alike hRelated)
  · rw [h.atEnd hEnd, h.atTail hTail hTerminator]

/-- Where the test says yes, tokens are left to both parsers. -/
theorem Blind.next {f : Token → Bool} (h : w.Blind f) (hBeside : w.Beside p q)
    (hYes : f p.current = true) :
    w.related p.current q.current ∧ w.Beside p.next q.next ∧
      p.next.rest.length + 1 = p.rest.length := by
  rcases hBeside.current_cases with ⟨-, hTokens, hNext, hLength⟩ | ⟨hRest, -⟩
  · exact ⟨hTokens, hNext, hLength⟩
  · rw [h.atEnd (hBeside.kinds_of_rest_nil hRest).1] at hYes
    cases hYes

theorem blind_kind {kind : TokenKind} (hEnd : kind ≠ .endOfInput)
    (hTail : w.tail ≠ [] → kind ≠ .terminator) : w.Blind (·.kind == kind) where
  alike h := by rw [h.kind]
  atEnd h := by simpa [h] using hEnd.symm
  atTail hTail' _ h := by simpa [h] using (hTail hTail').symm

theorem blind_isKeyword (k : Keyword) : w.Blind (·.isKeyword k) where
  alike h := h.isKeyword k
  atEnd h := by simp [Token.isKeyword, h]
  atTail _ _ h := by simp [Token.isKeyword, h]

theorem blind_isConnective (word : String) : w.Blind (·.isConnective word) where
  alike h := h.isConnective word
  atEnd h := by simp [Token.isConnective, h]
  atTail _ _ h := by simp [Token.isConnective, h]

/-- The events are left open. -/
theorem Beside.withEvents (h : w.Beside p q) (events events' : List ParseEvent) :
    w.Beside { p with events := events } { q with events := events' } :=
  ⟨h.position, h.length, h.rest, h.atEnd, h.stop, h.stops⟩

/-! ### Combining readers -/

variable {values : α → β → Prop} {values' : γ → δ → Prop} {room room' limit cost cost' : Nat}

theorem Agrees.mono {x : Except ParseError α × Parser} {y : Except ParseError β × Parser}
    (h : w.Agrees values room x y) (hRoom : room ≤ room') : w.Agrees values room' x y := by
  cases h with
  | ok value beside fits => exact .ok value beside (Nat.le_trans fits hRoom)
  | error errors => exact .error errors

theorem Agrees.bind {first : ParseM α} {first' : ParseM β} {second : α → ParseM γ}
    {second' : β → ParseM δ} (h : w.Agrees values room (p.run first) (q.run first'))
    (hSecond : ∀ {a b p' q'}, values a b → w.Beside p' q' → p'.rest.length ≤ room →
      w.Agrees values' room' (p'.run (second a)) (q'.run (second' b))) :
    w.Agrees values' room' (p.run (first >>= second)) (q.run (first' >>= second')) := by
  rw [run_bind, run_bind]
  generalize p.run first = x, q.run first' = y at h
  cases h with
  | ok value beside fits => exact hSecond value beside fits
  | error errors => exact .error errors

theorem Matches.limit_mono {limit' : Nat} {reader : ParseM α} {reader' : ParseM β}
    (h : w.Matches limit cost values reader reader') (hLimit : limit' ≤ limit) :
    w.Matches limit' cost values reader reader' :=
  fun p q hBeside hLimit' => h p q hBeside (Nat.le_trans hLimit' hLimit)

theorem Matches.uncounted {reader : ParseM α} {reader' : ParseM β}
    (h : w.Matches limit cost values reader reader') : w.Matches limit 0 values reader reader' :=
  fun p q hBeside hLimit => (h p q hBeside hLimit).mono (by omega)

/-- What the second reader takes is not counted. -/
theorem Matches.bind {first : ParseM α} {first' : ParseM β} {second : α → ParseM γ}
    {second' : β → ParseM δ} (h : w.Matches limit cost values first first')
    (hSecond : ∀ {a b}, values a b → w.Matches limit 0 values' (second a) (second' b)) :
    w.Matches limit cost values' (first >>= second) (first' >>= second') :=
  fun p q hBeside hLimit => (h p q hBeside hLimit).bind fun hValue hBeside' hFits =>
    (hSecond hValue _ _ hBeside' (by omega)).mono (by omega)

theorem matches_pure {a : α} {b : β} (h : values a b) :
    w.Matches limit 0 values (pure a) (pure b) :=
  fun _ _ hBeside _ => .ok h hBeside (Nat.le_refl _)

/-- Readers with equal results may be followed by readers that depend on them. -/
theorem Matches.andThen {first first' : ParseM α} {second second' : α → ParseM γ}
    {values' : γ → γ → Prop} (h : w.Matches limit cost Eq first first')
    (hSecond : ∀ a, w.Matches limit cost' values' (second a) (second' a)) :
    w.Matches limit cost values' (first >>= second) (first' >>= second') := by
  intro p q hBeside hLimit
  refine (h p q hBeside hLimit).bind ?_
  rintro a _ p' q' rfl hBeside' hFits
  exact (hSecond a p' q' hBeside' (by omega)).mono (by omega)

theorem Matches.map {reader reader' : ParseM α} (h : w.Matches limit cost Eq reader reader')
    (f : α → γ) :
    w.Matches limit cost Eq (reader >>= fun a => pure (f a)) (reader' >>= fun a => pure (f a)) :=
  h.andThen fun _ => matches_pure rfl

theorem matches_index_bind {second : Nat → ParseM α} {second' : Nat → ParseM β}
    (h : ∀ i, w.Matches limit cost values (second i) (second' (i + w.shift))) :
    w.Matches limit cost values (index >>= second) (index >>= second') := by
  intro p q hBeside hLimit
  rw [run_bind_ok p (run_index p), run_bind_ok q (run_index q), hBeside.position]
  exact h p.position p q hBeside hLimit

theorem matches_record (event event' : ParseEvent) :
    w.Matches limit 0 Eq (record event) (record event') := by
  intro p q hBeside _
  exact .ok rfl (hBeside.withEvents _ _) (Nat.le_refl _)

theorem matches_fail {fault fault' : ParseFault} {i : Nat} (h : w.Faults i fault fault') :
    w.Matches limit cost values (fail fault i) (fail fault' (i + w.shift)) :=
  fun _ _ _ _ => .error ⟨rfl, h⟩

/-- A choice that both make by the same test. -/
theorem Matches.ite {test test' : ParseM Bool} {yes no : ParseM α} {yes' no' : ParseM β}
    (hTest : w.Matches limit 0 Eq test test') (hYes : w.Matches limit cost values yes yes')
    (hNo : w.Matches limit cost' values no no') :
    w.Matches limit 0 values (test >>= fun b => if b then yes else no)
      (test' >>= fun b => if b then yes' else no') := by
  intro p q hBeside hLimit
  refine (hTest p q hBeside hLimit).bind ?_
  rintro b _ p' q' rfl hBeside' hFits
  cases b
  · exact (hNo p' q' hBeside' (by omega)).mono (by omega)
  · exact (hYes p' q' hBeside' (by omega)).mono (by omega)

/-! ### Single tokens -/

/-- Takes the current token if the function has a value for it. -/
def takeToken (f : Token → Option α) (expected : Expectation) (parser : Parser) :
    Except ParseError α × Parser :=
  match f parser.current with
  | some a => (.ok a, parser.next)
  | none => (.error ⟨.unexpectedToken expected parser.current, parser.position⟩, parser)

theorem matches_takeToken {reader : ParseM α} {f : Token → Option α} {expected : Expectation}
    {values : α → α → Prop} (hRun : ∀ parser : Parser, parser.run reader = takeToken f expected parser)
    (hRelated : ∀ {t u}, w.related t u → Option.Rel values (f t) (f u))
    (hNone : ∀ t : Token, t.kind = .endOfInput ∨ t.kind = .terminator → f t = none) :
    w.Matches limit 1 values reader reader := by
  intro p q hBeside _
  have hMiss : f p.current = none → f q.current = none →
      w.Agrees values (p.rest.length - 1) (takeToken f expected p) (takeToken f expected q) := by
    intro hp hq
    rw [takeToken, takeToken, hp, hq]
    exact .error ⟨hBeside.position, .unexpectedToken expected hBeside.found⟩
  rw [hRun, hRun]
  rcases hBeside.current_cases with ⟨-, hTokens, hNext, hLength⟩ | ⟨hRest, -, hFound⟩
  · have hValues := hRelated hTokens
    cases hp : f p.current <;> cases hq : f q.current <;> rw [hp, hq] at hValues <;> cases hValues
    · exact hMiss hp hq
    · rename_i hValue
      rw [takeToken, takeToken, hp, hq]
      exact .ok hValue hNext (by omega)
  · obtain ⟨hEnd, hEnd'⟩ := hBeside.kinds_of_rest_nil hRest
    exact hMiss (hNone _ (.inl hEnd)) (hNone _ hEnd')

theorem matches_consume {kind : TokenKind} {expected : Expectation} (hEnd : kind ≠ .endOfInput)
    (hTerminator : kind ≠ .terminator) :
    w.Matches limit 1 (fun t u => w.related t u ∧ (kind ≠ .keyword → t.lexeme = u.lexeme))
      (consume kind expected) (consume kind expected) := by
  have hRun : ∀ parser : Parser, parser.run (consume kind expected) =
      takeToken (fun t => if t.kind = kind then some t else none) expected parser := by
    intro parser
    rw [run_consume, takeToken]
    split <;> simp_all
  refine matches_takeToken hRun ?_ ?_
  · intro t u hTokens
    have hAlike := w.alike hTokens
    rw [← hAlike.kind]
    split
    · rename_i hKind
      exact .some ⟨hTokens, fun hNot => hAlike.lexeme_of_kind (by rwa [hKind])⟩
    · exact .none
  · rintro t (hKind | hKind)
    · exact if_neg (by rw [hKind]; exact hEnd.symm)
    · exact if_neg (by rw [hKind]; exact hTerminator.symm)

theorem matches_consumeKeyword (k : Keyword) :
    w.Matches limit 1 Eq (consumeKeyword k) (consumeKeyword k) := by
  have hRun : ∀ parser : Parser, parser.run (consumeKeyword k) =
      takeToken (fun t => if t.isKeyword k then some () else none) (.keyword k) parser := by
    intro parser
    rw [run_consumeKeyword, takeToken]
    split <;> simp_all
  refine matches_takeToken hRun ?_ ?_
  · intro t u hTokens
    rw [(w.alike hTokens).isKeyword]
    split
    · exact .some rfl
    · exact .none
  · rintro t (hKind | hKind) <;> simp [Token.isKeyword, hKind]

theorem matches_look {test : ParseM Bool} {f : Token → Bool} (hTest : Looks test f)
    (hBlind : w.Blind f) : w.Matches limit 0 Eq test test := by
  intro p q hBeside _
  rw [hTest.run, hTest.run]
  exact .ok (hBlind.current hBeside) hBeside (Nat.le_refl _)

theorem matches_stepIf {test : ParseM Bool} {f : Token → Bool} (hTest : Looks test f)
    (hBlind : w.Blind f) : w.Matches limit 0 Eq (stepIf test) (stepIf test) := by
  intro p q hBeside _
  rw [run_stepIf p (hTest.run p), run_stepIf q (hTest.run q), ← hBlind.current hBeside]
  cases hYes : f p.current with
  | false => exact .ok rfl hBeside (Nat.le_refl _)
  | true =>
    obtain ⟨-, hNext, hLength⟩ := hBlind.next hBeside hYes
    exact .ok rfl hNext (by simp only [if_true]; omega)

/-- The parentheses are outside of the tokens that bound the inner reader. -/
theorem matches_parenthesized_succ {inner inner' : ParseM α}
    (h : w.Matches limit cost Eq inner inner') :
    w.Matches (limit + 1) 1 Eq (parenthesized inner) (parenthesized inner') := by
  have hOpening : w.Matches (limit + 1) 1 _ (consume .parenOpen .parenOpen) _ :=
    matches_consume (by decide) (by decide)
  have hClosing : w.Matches limit 1 _ (consume .parenClose .parenClose) _ :=
    matches_consume (by decide) (by decide)
  have hInner := h.andThen fun a => hClosing.bind fun _ => matches_pure (Eq.refl a)
  intro p q hBeside hLimit
  exact (hOpening p q hBeside hLimit).bind fun _ hBeside' hFits =>
    (hInner _ _ hBeside' (by omega)).mono (by omega)

theorem matches_parenthesized {inner inner' : ParseM α}
    (h : w.Matches limit cost Eq inner inner') :
    w.Matches limit 1 Eq (parenthesized inner) (parenthesized inner') :=
  (matches_parenthesized_succ h).limit_mono (Nat.le_succ limit)

/-! ### Loops -/

/-- What two loops with the same test need of it and of their steps. A test that says no leaves both
parsers where they are. -/
structure LoopMatches (w : Pairing) (limit : Nat) (more : ParseM Bool) (step step' : α → ParseM α) :
    Prop where
  round : ∀ {p q : Parser} (a : α), w.Beside p q → p.rest.length ≤ limit →
    p.run more = (.ok false, p) ∧ q.run more = (.ok false, q) ∨
      p.rest ≠ [] ∧ ∃ p' q', p.run more = (.ok true, p') ∧ q.run more = (.ok true, q') ∧
        w.Agrees Eq (p.rest.length - 1) (p'.run (step a)) (q'.run (step' a))

section

variable {more : ParseM Bool} {step step' : α → ParseM α}

theorem run_iterate_of_false (hMore : p.run more = (.ok false, p)) (bound : Nat) (a : α) :
    p.run (iterate more step bound a) = (.ok a, p) := by
  cases bound with
  | zero => rfl
  | succ bound =>
    rw [run_iterate_succ, run_bind_ok p hMore]
    rfl

/-- The bounds need not be the same, as long as both are enough. -/
theorem LoopMatches.iterate (h : w.LoopMatches limit more step step') {bound bound' : Nat} {a : α}
    (hBeside : w.Beside p q) (hLimit : p.rest.length ≤ limit) (hBound : p.rest.length ≤ bound)
    (hBound' : q.rest.length ≤ bound') :
    w.Agrees Eq p.rest.length (p.run (Parser.iterate more step bound a))
      (q.run (Parser.iterate more step' bound' a)) := by
  induction bound generalizing p q a bound' with
  | zero =>
    -- Without tokens ahead of the first parser, neither loop goes another round.
    rcases h.round a hBeside hLimit with ⟨-, hMore'⟩ | ⟨hSome, -⟩
    · rw [run_iterate_zero, run_iterate_of_false hMore']
      exact .ok rfl hBeside (Nat.le_refl _)
    · exact absurd (List.eq_nil_of_length_eq_zero (Nat.le_zero.mp hBound)) hSome
  | succ bound ih =>
    rcases h.round a hBeside hLimit with ⟨hMore, hMore'⟩ | ⟨hSome, p', q', hMore, hMore', hStep⟩
    · rw [run_iterate_of_false hMore, run_iterate_of_false hMore']
      exact .ok rfl hBeside (Nat.le_refl _)
    · have hPositive := List.length_pos_of_ne_nil hSome
      have hLengths := hBeside.length_rest
      obtain ⟨bound', rfl⟩ : ∃ n, bound' = n + 1 := ⟨bound' - 1, by omega⟩
      rw [run_iterate_succ, run_bind_ok p hMore, run_iterate_succ, run_bind_ok q hMore']
      refine Agrees.bind hStep ?_
      rintro b _ p'' q'' rfl hBeside' hFits
      have hLengths' := hBeside'.length_rest
      exact (ih hBeside' (by omega) (by omega) (by omega)).mono (by omega)

theorem LoopMatches.repeatWhile (h : w.LoopMatches limit more step step') (a : α) :
    w.Matches limit 0 Eq (Parser.repeatWhile more step a) (Parser.repeatWhile more step' a) := by
  intro p q hBeside hLimit
  rw [run_repeatWhile, run_repeatWhile]
  exact h.iterate hBeside hLimit (Nat.le_refl _) (Nat.le_refl _)

theorem loopMatches_stepIf {test : ParseM Bool} {f : Token → Bool} (hTest : Looks test f)
    (hBlind : w.Blind f) (hStep : ∀ a, w.Matches limit cost Eq (step a) (step' a)) :
    w.LoopMatches limit (stepIf test) step step' where
  round {p q} a hBeside hLimit := by
    rw [run_stepIf p (hTest.run p), run_stepIf q (hTest.run q), ← hBlind.current hBeside]
    cases hYes : f p.current with
    | false => exact .inl ⟨rfl, rfl⟩
    | true =>
      obtain ⟨-, hNext, hLength⟩ := hBlind.next hBeside hYes
      refine .inr ⟨List.ne_nil_of_length_pos (by omega), p.next, q.next, rfl, rfl, ?_⟩
      exact (hStep a _ _ hNext (by omega)).mono (by omega)

theorem loopMatches_comma (hStep : ∀ a, w.Matches limit cost Eq (step a) (step' a)) :
    w.LoopMatches limit (accept .comma) step step' :=
  loopMatches_stepIf (looks_check (by decide)) (blind_kind (by decide) fun _ => by decide) hStep

theorem matches_separated (hStep : ∀ a, w.Matches limit cost Eq (step a) (step' a)) (a : α) :
    w.Matches limit cost Eq (separated step a) (separated step' a) :=
  (hStep a).andThen (loopMatches_comma hStep).repeatWhile

end

end Pairing
end Parser
end SqlStore
