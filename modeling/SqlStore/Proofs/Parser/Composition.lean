import SqlStore.Proofs.Parser.Paired
import SqlStore.Proofs.Parser.Script
import SqlStore.Proofs.Token.Composition

/-!
# Scripts one after the other

A statement takes the terminator behind it, if there is one, and a script passes over those before
its statements. So a script that is followed by a terminator and other tokens is read as if it ended
there, and the other tokens are read as if they stood alone, except that places are counted from the
front of the first script.
-/
namespace SqlStore
namespace Parser
set_option autoImplicit false

/-- The loop of `script`, with the statements read so far. -/
def scriptFrom (bound : Nat) (statements : Script) : ParseM Script :=
  iterate anotherStatement (fun statements => return statements ++ [← statement]) bound statements

theorem run_script (parser : Parser) :
    parser.run script = parser.run (scriptFrom parser.rest.length []) := rfl

variable {parser : Parser} {bound : Nat}

theorem rest_of_ne_nil (h : parser.rest ≠ []) : ∃ us, parser.rest = parser.current :: us := by
  obtain ⟨t, us, hRest⟩ := List.exists_cons_of_ne_nil h
  exact ⟨us, by rw [hRest, current_of_rest hRest]⟩

theorem run_anotherStatement {after : Parser} (h : parser.run skipTerminators = (.ok (), after)) :
    parser.run anotherStatement = (.ok (!after.atEnd), after) := by
  rw [anotherStatement, run_bind_ok parser h]
  rfl

theorem run_skipTerminators_next {t : Token} {us : List Token} (hRest : parser.rest = t :: us)
    (hKind : t.kind = .terminator) :
    parser.run skipTerminators = parser.next.run skipTerminators := by
  have hNext : parser.next.rest = us := by rw [next, hRest]
  have hAccept : parser.run (accept .terminator) = (.ok true, parser.next) := by
    simp [run_accept, current_of_rest hRest, hKind]
  rw [skipTerminators, run_repeatWhile, run_repeatWhile, hRest, hNext, List.length_cons,
    run_iterate_succ, run_bind_ok parser hAccept]
  rfl

theorem run_skipTerminators_of_ne {t : Token} {us : List Token} (hRest : parser.rest = t :: us)
    (hKind : t.kind ≠ .terminator) : parser.run skipTerminators = (.ok (), parser) := by
  have hAccept : parser.run (accept .terminator) = (.ok false, parser) := by
    simp [run_accept, current_of_rest hRest, hKind]
  rw [skipTerminators, run_repeatWhile, hRest, List.length_cons, run_iterate_succ,
    run_bind_ok parser hAccept]
  rfl

theorem run_scriptFrom_nil (hRest : parser.rest = []) (statements : Script) :
    parser.run (scriptFrom bound statements) = (.ok statements, parser) := by
  cases bound with
  | zero => rfl
  | succ bound =>
    have hSkip : parser.run skipTerminators = (.ok (), parser) := by
      rw [skipTerminators, run_repeatWhile, hRest]
      rfl
    rw [scriptFrom, run_iterate_succ, run_bind_ok parser (run_anotherStatement hSkip), atEnd, hRest]
    rfl

theorem run_scriptFrom_terminator {t : Token} {us : List Token} (hRest : parser.rest = t :: us)
    (hKind : t.kind = .terminator) (hBound : 0 < bound) (statements : Script) :
    parser.run (scriptFrom bound statements) = parser.next.run (scriptFrom bound statements) := by
  obtain ⟨bound, rfl⟩ : ∃ n, bound = n + 1 := ⟨bound - 1, by omega⟩
  have hMore : parser.run anotherStatement = parser.next.run anotherStatement := by
    rw [anotherStatement, run_bind, run_bind, run_skipTerminators_next hRest hKind]
  rw [scriptFrom, run_iterate_succ, run_iterate_succ, run_bind, run_bind, hMore]

theorem run_scriptFrom_statement {t : Token} {us : List Token} (hRest : parser.rest = t :: us)
    (hKind : t.kind ≠ .terminator) (statements : Script) :
    parser.run (scriptFrom (bound + 1) statements) =
      parser.run (statement >>= fun s => scriptFrom bound (statements ++ [s])) := by
  have hMore := run_anotherStatement (run_skipTerminators_of_ne hRest hKind)
  rw [atEnd, hRest] at hMore
  rw [scriptFrom, run_iterate_succ, run_bind_ok parser hMore]
  simp only [List.isEmpty_cons, Bool.not_false, if_true, bind_assoc, pure_bind]
  rfl

namespace Pairing

variable {w : Pairing} {p q : Parser}

/-! ### Statements beside each other -/

/-- The second parser has gone on and taken the terminator behind the tokens of the first. -/
structure Past (w : Pairing) (q : Parser) : Prop where
  tail : w.tail ≠ []
  rest : q.rest = w.tail.tail
  position : q.position = w.length + w.shift + 1
  stop : q.stop = w.stop

inductive Ends (w : Pairing) (room : Nat) :
    Except ParseError Statement × Parser → Except ParseError Statement × Parser → Prop
  | ok {s : Statement} {p q : Parser} (beside : w.Beside p q) (fits : p.rest.length ≤ room) :
      Ends w room (.ok s, p) (.ok s, q)
  | past {s : Statement} {p q : Parser} (atEnd : p.rest = []) (past : w.Past q) :
      Ends w room (.ok s, p) (.ok s, q)
  | error {d e : ParseError} {p q : Parser} (errors : w.Errors d e) :
      Ends w room (.error d, p) (.error e, q)

theorem Ends.mono {room room' : Nat} {x y : Except ParseError Statement × Parser}
    (h : w.Ends room x y) (hRoom : room ≤ room') : w.Ends room' x y := by
  cases h with
  | ok beside fits => exact .ok beside (Nat.le_trans fits hRoom)
  | past atEnd past => exact .past atEnd past
  | error errors => exact .error errors

theorem Agrees.ends {α : Type} {room room' : Nat} {first first' : ParseM α}
    {second second' : α → ParseM Statement} (h : w.Agrees Eq room (p.run first) (q.run first'))
    (hSecond : ∀ {a p' q'}, w.Beside p' q' → p'.rest.length ≤ room →
      w.Ends room' (p'.run (second a)) (q'.run (second' a))) :
    w.Ends room' (p.run (first >>= second)) (q.run (first' >>= second')) := by
  rw [run_bind, run_bind]
  generalize p.run first = x, q.run first' = y at h
  cases h with
  | ok value beside fits =>
    subst value
    exact hSecond beside fits
  | error errors => exact .error errors

theorem run_finish (parser : Parser) (keyword : Keyword) (first : Nat) (statement : Statement) :
    ∃ events, parser.run (finish keyword first statement) =
      (.ok statement, { (if parser.current.kind == .terminator then parser.next else parser) with
        events := events }) := by
  rw [finish, run_bind_ok parser (run_accept parser .terminator)]
  exact ⟨_, rfl⟩

theorem ends_finish (hBeside : w.Beside p q) (keyword : Keyword) (first first' : Nat)
    (statement : Statement) :
    w.Ends p.rest.length (p.run (finish keyword first statement))
      (q.run (finish keyword first' statement)) := by
  obtain ⟨events, hRun⟩ := run_finish p keyword first statement
  obtain ⟨events', hRun'⟩ := run_finish q keyword first' statement
  rw [hRun, hRun']
  rcases hBeside.current_cases with ⟨-, hTokens, hNext, hLength⟩ | ⟨hRest, hTail, hFound⟩
  · rw [← (w.alike hTokens).kind]
    split
    · exact .ok (hNext.withEvents _ _) (by dsimp only; omega)
    · exact .ok (hBeside.withEvents _ _) (Nat.le_refl _)
  · have hEnd := (hBeside.kinds_of_rest_nil hRest).1
    rw [if_neg (by simp [hEnd])]
    rcases hFound with hTokens | ⟨hNonempty, -, -, hTerminator⟩
    · rw [if_neg (by simp [← (w.alike hTokens).kind, hEnd])]
      exact .ok (hBeside.withEvents _ _) (Nat.le_refl _)
    · rw [if_pos (by simp [hTerminator])]
      obtain ⟨u, us, hCons⟩ := List.exists_cons_of_ne_nil hNonempty
      have hPosition := hBeside.position
      have hLength := hBeside.length
      rw [hCons] at hTail
      refine .past hRest ⟨hNonempty, ?_, ?_, ?_⟩
      · simp [next, hTail, hCons]
      · rw [hRest] at hLength
        simp only [next, hTail, List.length_nil] at hLength ⊢
        omega
      · simp [next, hTail, hBeside.stop]

theorem ends_statementBody {t u : Token} (h : w.related t u) (hBeside : w.Beside p q) (first : Nat) :
    w.Ends (p.rest.length - 1) (p.run (statementBody t first))
      (q.run (statementBody u (first + w.shift))) := by
  unfold statementBody
  rw [(w.alike h).keyword]
  split
  · exact (matches_createTable p q hBeside (Nat.le_refl _)).ends fun hBeside' hFits =>
      (ends_finish hBeside' _ _ _ _).mono hFits
  · exact (matches_insertInto p q hBeside (Nat.le_refl _)).ends fun hBeside' hFits =>
      (ends_finish hBeside' _ _ _ _).mono hFits
  · exact .error ⟨rfl, .same fun _ _ => nofun⟩
  · rename_i hNone
    have hLexeme : t.lexeme = u.lexeme :=
      (w.alike h).lexeme.resolve_right fun ⟨_, k, _, hu⟩ => nomatch hNone.symm.trans hu
    rw [hLexeme]
    exact .error ⟨rfl, .same fun _ _ => nofun⟩

theorem ends_statement (hBeside : w.Beside p q) :
    w.Ends (p.rest.length - 1) (p.run statement) (q.run statement) := by
  have hBlind : w.Blind (·.kind == .keyword) := blind_kind (by decide) fun _ => by decide
  have hCurrent := hBlind.current hBeside
  rw [run_statement, run_statement]
  by_cases hKind : p.current.kind = .keyword
  · obtain ⟨hTokens, -⟩ := hBlind.next hBeside (by simp [hKind])
    rw [if_pos hKind, if_pos ((w.alike hTokens).kind.symm.trans hKind), hBeside.position]
    exact ends_statementBody hTokens hBeside p.position
  · have hKind' : q.current.kind ≠ .keyword := by simpa [hKind] using hCurrent.symm
    rw [if_neg hKind, if_neg hKind']
    exact .error ⟨hBeside.position, .unexpectedToken .statementKeyword hBeside.found⟩

/-! ### Scripts beside each other -/

/-- The second parser has passed the tokens of the first, and at most one more. -/
def AtTail (w : Pairing) (q : Parser) : Prop :=
  q.rest = w.tail ∧ q.position = w.length + w.shift ∧ q.stop = w.stop ∨ w.Past q

/-- Where the script of the first parser ends, that of the second goes on with the same statements
behind those that it had before. -/
inductive Continues (w : Pairing) (before : Script) :
    Except ParseError Script × Parser → Except ParseError Script × Parser → Prop
  | ok {statements : Script} {p q : Parser} {bound : Nat} (atTail : w.AtTail q)
      (fits : q.rest.length ≤ bound) :
      Continues w before (.ok statements, p) (q.run (scriptFrom bound (before ++ statements)))
  | error {d e : ParseError} {p q : Parser} (errors : w.Errors d e) :
      Continues w before (.error d, p) (.error e, q)

theorem continues_of_rest_nil {bound bound' : Nat} {before statements : Script}
    (hBeside : w.Beside p q) (hRest : p.rest = []) (hBound : q.rest.length ≤ bound') :
    w.Continues before (p.run (scriptFrom bound statements))
      (q.run (scriptFrom bound' (before ++ statements))) := by
  obtain ⟨front, hFront, hRelated⟩ := hBeside.rest
  have hLength := hBeside.length
  rw [hRest] at hRelated hLength
  cases hRelated
  rw [run_scriptFrom_nil hRest]
  refine .ok (.inl ⟨hFront, ?_, hBeside.stop⟩) hBound
  rw [hBeside.position, ← hLength]
  rfl

/-- The induction is on the tokens ahead of the first parser, because a terminator before a statement
is passed without a round of the loop. -/
theorem continues_scriptFrom {ahead bound bound' : Nat} {before statements : Script}
    (hBeside : w.Beside p q) (hAhead : p.rest.length ≤ ahead) (hBound : p.rest.length ≤ bound)
    (hBound' : q.rest.length ≤ bound') :
    w.Continues before (p.run (scriptFrom bound statements))
      (q.run (scriptFrom bound' (before ++ statements))) := by
  induction ahead generalizing p q bound bound' statements with
  | zero =>
    exact continues_of_rest_nil hBeside (List.eq_nil_of_length_eq_zero (by omega)) hBound'
  | succ ahead ih =>
    have hLengths := hBeside.length_rest
    rcases hBeside.current_cases with ⟨hSome, hTokens, hNext, hLength⟩ | ⟨hRest, -⟩
    · have hLengths' := hNext.length_rest
      have hSome' : q.rest ≠ [] := List.ne_nil_of_length_pos (by omega)
      obtain ⟨us, hRest⟩ := rest_of_ne_nil hSome
      obtain ⟨us', hRest'⟩ := rest_of_ne_nil hSome'
      by_cases hKind : p.current.kind = .terminator
      · have hKind' : q.current.kind = .terminator := (w.alike hTokens).kind.symm.trans hKind
        rw [run_scriptFrom_terminator hRest hKind (by omega),
          run_scriptFrom_terminator hRest' hKind' (by omega)]
        exact ih hNext (by omega) (by omega) (by omega)
      · have hKind' : q.current.kind ≠ .terminator := fun h =>
          hKind ((w.alike hTokens).kind.trans h)
        obtain ⟨bound, rfl⟩ : ∃ n, bound = n + 1 := ⟨bound - 1, by omega⟩
        obtain ⟨bound', rfl⟩ : ∃ n, bound' = n + 1 := ⟨bound' - 1, by omega⟩
        rw [run_scriptFrom_statement hRest hKind, run_scriptFrom_statement hRest' hKind', run_bind,
          run_bind]
        have hEnds := ends_statement hBeside
        generalize p.run statement = x, q.run statement = y at hEnds
        cases hEnds with
        | ok beside fits =>
          have hLengths'' := beside.length_rest
          dsimp only
          rw [List.append_assoc]
          exact ih beside (by omega) (by omega) (by omega)
        | past atEnd past =>
          dsimp only
          rw [run_scriptFrom_nil atEnd, List.append_assoc]
          refine .ok (.inr past) ?_
          rw [past.rest, List.length_tail]
          omega
        | error errors => exact .error errors
    · exact continues_of_rest_nil hBeside hRest hBound'

end Pairing

/-! ### Lists of tokens -/

theorem ofTokens_append_end {ts : List Token} {e : Token} (hTokens : ∀ t ∈ ts, t.kind ≠ .endOfInput)
    (hEnd : e.kind = .endOfInput) : ofTokens (ts ++ [e]) = ⟨0, ts, e, []⟩ := by
  have hGo : ∀ t ∈ ts, (!isEnd t) = true := fun t ht => by simpa [isEnd] using hTokens t ht
  have hNone : ts.find? isEnd = none := by
    rw [List.find?_eq_none]
    intro t ht
    simpa using hGo t ht
  rw [ofTokens, List.takeWhile_append_of_pos hGo, List.find?_append, hNone]
  simp [isEnd, hEnd]

end Parser

/-! ### Displaced tokens -/

theorem Token.Alike.refl (t : Token) : t.Alike t :=
  ⟨rfl, .inl rfl⟩

theorem Token.alike_displaced (distance : Nat) (t : Token) : t.Alike (t.displaced distance) :=
  ⟨rfl, .inl rfl⟩

def ParseFault.displaced (distance : Nat) : ParseFault → ParseFault
  | .unexpectedToken expected found => .unexpectedToken expected (found.displaced distance)
  | fault => fault

/-- The error of the same tokens behind `count` others and at a distance in bytes. -/
def ParseError.displaced (count distance : Nat) (error : ParseError) : ParseError :=
  ⟨error.fault.displaced distance, error.index + count⟩

namespace Parser

/-- The same tokens, followed by `tail` and an end mark. -/
def Pairing.followed (ts tail : List Token) (stop : Token)
    (hTail : ∀ t ∈ tail.head?, t.kind = .terminator) : Pairing where
  related := Eq
  alike h := h ▸ .refl _
  shift := 0
  length := ts.length
  tail := tail
  terminated := hTail
  stop := stop

/-- The same tokens at a distance and behind `count` others. -/
def Pairing.displaced (ts : List Token) (stop : Token) (count distance : Nat) : Pairing where
  related t u := u = t.displaced distance
  alike h := h ▸ Token.alike_displaced distance _
  shift := count
  length := ts.length
  tail := []
  terminated := terminated_nil
  stop := stop.displaced distance

theorem Pairing.Errors.eq_displaced {ts : List Token} {stop : Token} {count distance : Nat}
    {d e : ParseError} (h : (displaced ts stop count distance).Errors d e) :
    e = d.displaced count distance := by
  obtain ⟨fault, i⟩ := d
  obtain ⟨fault', j⟩ := e
  obtain ⟨rfl, hFault⟩ : j = i + count ∧ _ := ⟨h.index, h.fault⟩
  have hFaults : fault' = fault.displaced distance := by
    cases hFault with
    | unexpectedToken expected found =>
      rcases found with hTokens | ⟨hNot, -⟩
      · rw [ParseFault.displaced, hTokens]
      · exact absurd rfl hNot
    | same noToken =>
      cases fault with
      | unexpectedToken expected t => exact absurd rfl (noToken expected t)
      | _ => rfl
  rw [ParseError.displaced, hFaults]

theorem Pairing.AtTail.pass {w : Pairing} {q : Parser} {bound : Nat} {t : Token} {us : List Token}
    (h : w.AtTail q) (hTail : w.tail = t :: us) (hBound : q.rest.length ≤ bound)
    (statements : Script) :
    ∃ q' : Parser, q.run (scriptFrom bound statements) = q'.run (scriptFrom bound statements) ∧
      q'.rest = us ∧ q'.position = w.length + w.shift + 1 ∧ q'.stop = w.stop ∧
        us.length ≤ bound := by
  rcases h with ⟨hRest, hPosition, hStop⟩ | hPast
  · have hKind := w.terminated t (by simp [hTail])
    rw [hTail] at hRest
    rw [hRest, List.length_cons] at hBound
    refine ⟨q.next, run_scriptFrom_terminator hRest hKind (by omega) statements, ?_, ?_, ?_,
      by omega⟩
    · rw [next, hRest]
    · rw [next, hRest]
      exact congrArg (· + 1) hPosition
    · rw [next, hRest]
      exact hStop
  · have hRest := hPast.rest
    rw [hTail, List.tail_cons] at hRest
    exact ⟨q, rfl, hRest, hPast.position, hPast.stop, by rwa [hRest] at hBound⟩

theorem Pairing.AtTail.run_scriptFrom {w : Pairing} {q : Parser} {bound : Nat} (h : w.AtTail q)
    (hTail : w.tail = []) (statements : Script) :
    q.run (scriptFrom bound statements) = (.ok statements, q) := by
  rcases h with ⟨hRest, -⟩ | hPast
  · exact run_scriptFrom_nil (hRest.trans hTail) statements
  · exact absurd hTail hPast.tail

variable {ts us : List Token} {terminator stop last : Token} {distance : Nat}

theorem Pairing.beside_followed (hLast : last.kind = .endOfInput)
    (hTail : ∀ t ∈ (terminator :: us).head?, t.kind = .terminator) :
    (Pairing.followed ts (terminator :: us) stop hTail).Beside ⟨0, ts, last, []⟩
      ⟨0, ts ++ terminator :: us, stop, []⟩ :=
  ⟨rfl, Nat.zero_add _, ⟨ts, rfl, List.forall₂_same.mpr fun _ _ => rfl⟩, hLast, rfl,
    fun hNil => nomatch hNil⟩

theorem continues_script_followed (hLast : last.kind = .endOfInput)
    (hTail : ∀ t ∈ (terminator :: us).head?, t.kind = .terminator) :
    (Pairing.followed ts (terminator :: us) stop hTail).Continues []
      (run script ⟨0, ts, last, []⟩) (run script ⟨0, ts ++ terminator :: us, stop, []⟩) := by
  rw [run_script, run_script]
  exact Pairing.continues_scriptFrom (Pairing.beside_followed hLast hTail) (Nat.le_refl _)
    (Nat.le_refl _) (Nat.le_refl _)

/-- A script that ends before a terminator leaves what is behind it to the rest of the loop. -/
theorem run_script_followed (hTerminator : terminator.kind = .terminator)
    (hLast : last.kind = .endOfInput) {first : Script}
    (h : (run script ⟨0, ts, last, []⟩).1 = .ok first) :
    ∃ (q : Parser) (bound : Nat),
      run script ⟨0, ts ++ terminator :: us, stop, []⟩ = q.run (scriptFrom bound first) ∧
        q.rest = us ∧ q.position = ts.length + 1 ∧ q.stop = stop ∧ us.length ≤ bound := by
  have hTail : ∀ t ∈ (terminator :: us).head?, t.kind = .terminator := by
    simpa using hTerminator
  have hContinues := @continues_script_followed ts us terminator stop last hLast hTail
  generalize run script ⟨0, ts, last, []⟩ = x at h hContinues
  generalize run script ⟨0, ts ++ terminator :: us, stop, []⟩ = y at hContinues
  cases hContinues with
  | error errors => cases h
  | ok atTail fits =>
    cases h
    obtain ⟨q, hRun, hRest, hPosition, hStop, hBound⟩ := atTail.pass rfl fits first
    exact ⟨q, _, hRun, hRest, hPosition, hStop, hBound⟩

/-- An error at one of the first tokens does not depend on what follows them. -/
theorem Pairing.Errors.eq_followed {tail : List Token}
    {hTail : ∀ t ∈ tail.head?, t.kind = .terminator} {d e : ParseError}
    (h : (followed ts tail stop hTail).Errors d e) (hIndex : d.index < ts.length) : e = d := by
  obtain ⟨fault, i⟩ := d
  obtain ⟨fault', j⟩ := e
  obtain ⟨rfl, hFault⟩ : j = i + 0 ∧ _ := ⟨h.index, h.fault⟩
  cases hFault with
  | unexpectedToken expected found =>
    rcases found with hTokens | ⟨-, hLength, -⟩
    · obtain rfl : _ = _ := hTokens
      rfl
    · exact absurd hLength (Nat.ne_of_lt hIndex)
  | same => rfl

theorem run_script_followed_error (hTerminator : terminator.kind = .terminator)
    (hLast : last.kind = .endOfInput) {e : ParseError} (hIndex : e.index < ts.length)
    (h : (run script ⟨0, ts, last, []⟩).1 = .error e) :
    (run script ⟨0, ts ++ terminator :: us, stop, []⟩).1 = .error e := by
  have hTail : ∀ t ∈ (terminator :: us).head?, t.kind = .terminator := by
    simpa using hTerminator
  have hContinues := @continues_script_followed ts us terminator stop last hLast hTail
  generalize run script ⟨0, ts, last, []⟩ = x at h hContinues
  generalize run script ⟨0, ts ++ terminator :: us, stop, []⟩ = y at hContinues
  cases hContinues with
  | ok atTail fits => cases h
  | error errors =>
    cases h
    rw [errors.eq_followed hIndex]

theorem run_scriptFrom_displaced {q : Parser} {bound count : Nat} {before : Script}
    (hStop : stop.kind = .endOfInput) (hRest : q.rest = us.map (Token.displaced distance))
    (hPosition : q.position = count) (hStop' : q.stop = stop.displaced distance)
    (hBound : q.rest.length ≤ bound) :
    (q.run (scriptFrom bound before)).1 =
      match (run script ⟨0, us, stop, []⟩).1 with
      | .ok statements => .ok (before ++ statements)
      | .error e => .error (e.displaced count distance) := by
  have hTokens : List.Forall₂ (fun t u => u = t.displaced distance) us q.rest := by
    rw [hRest, List.forall₂_map_right_iff]
    exact List.forall₂_same.mpr fun _ _ => rfl
  have hBeside : (Pairing.displaced us stop count distance).Beside ⟨0, us, stop, []⟩ q :=
    ⟨hPosition.trans (Nat.zero_add _).symm, Nat.zero_add _, ⟨_, (List.append_nil _).symm, hTokens⟩,
      hStop, hStop', fun _ => rfl⟩
  have hContinues : (Pairing.displaced us stop count distance).Continues before
      (run script ⟨0, us, stop, []⟩) (q.run (scriptFrom bound (before ++ []))) := by
    rw [run_script]
    exact Pairing.continues_scriptFrom hBeside (Nat.le_refl _) (Nat.le_refl _) hBound
  rw [List.append_nil] at hContinues
  generalize run script ⟨0, us, stop, []⟩ = x, q.run (scriptFrom bound before) = y at hContinues
  cases hContinues with
  | error errors => rw [errors.eq_displaced]
  | ok atTail fits => rw [atTail.run_scriptFrom rfl]

theorem ofTokens_composed (hFirst : ∀ t ∈ ts, t.kind ≠ .endOfInput)
    (hSecond : ∀ t ∈ us, t.kind ≠ .endOfInput) (hTerminator : terminator.kind = .terminator)
    (hLast : last.kind = .endOfInput) (hStop : stop.kind = .endOfInput) {first : Script}
    (h : Script.ofTokens (ts ++ [last]) = .ok first) :
    Script.ofTokens (ts ++ terminator :: us.map (Token.displaced distance) ++
        [stop.displaced distance]) =
      match Script.ofTokens (us ++ [stop]) with
      | .ok second => .ok (first ++ second)
      | .error e => .error (e.displaced (ts.length + 1) distance) := by
  have hAll : ∀ t ∈ ts ++ terminator :: us.map (Token.displaced distance),
      t.kind ≠ .endOfInput := by
    rw [List.forall_mem_append, List.forall_mem_cons, List.forall_mem_map]
    exact ⟨hFirst, by simp [hTerminator], hSecond⟩
  rw [Script.ofTokens, ofTokens_append_end hFirst hLast] at h
  have hStop' : (stop.displaced distance).kind = .endOfInput := hStop
  rw [Script.ofTokens, Script.ofTokens, ofTokens_append_end hAll hStop',
    ofTokens_append_end hSecond hStop]
  obtain ⟨q, bound, hRun, hRest, hPosition, hEnd, hBound⟩ :=
    run_script_followed hTerminator hLast h
  rw [hRun]
  exact run_scriptFrom_displaced hStop hRest hPosition hEnd (by rwa [hRest])

theorem ofTokens_composed_error (hFirst : ∀ t ∈ ts, t.kind ≠ .endOfInput)
    (hSecond : ∀ t ∈ us, t.kind ≠ .endOfInput) (hTerminator : terminator.kind = .terminator)
    (hLast : last.kind = .endOfInput) (hStop : stop.kind = .endOfInput) {e : ParseError}
    (hIndex : e.index < ts.length) (h : Script.ofTokens (ts ++ [last]) = .error e) :
    Script.ofTokens (ts ++ terminator :: us ++ [stop]) = .error e := by
  have hAll : ∀ t ∈ ts ++ terminator :: us, t.kind ≠ .endOfInput := by
    rw [List.forall_mem_append, List.forall_mem_cons]
    exact ⟨hFirst, by simp [hTerminator], hSecond⟩
  rw [Script.ofTokens, ofTokens_append_end hFirst hLast] at h
  rw [Script.ofTokens, ofTokens_append_end hAll hStop]
  exact run_script_followed_error hTerminator hLast hIndex h

end Parser
end SqlStore
