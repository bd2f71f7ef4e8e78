import Mathlib.Data.List.TakeWhile
import SqlStore.Proofs.Parser.Composition
import SqlStore.Proofs.Parser.Trailing

/-!
# One statement and many

The reader of one statement and the reader of a script go through the same tokens in the same way. A
script divides into stretches of tokens, each of which is read alone as one statement, and only
terminators lie between them. Where one statement is asked for and more follows, the script goes on
from where the statement ended.
-/
namespace SqlStore.Parser
open Grammar
set_option autoImplicit false

/-! ### Stretches of tokens -/

/-- A written form of a statement may hold a terminator only at its end. -/
theorem RegularForm.of_terminator {t : Token} {ts us : List Token} {s : Statement}
    (h : RegularForm (ts ++ t :: us) s) (hKind : t.kind = .terminator) :
    us = [] ∧ RegularForm ts s := by
  have hTail : ∀ u ∈ (t :: us).head?, u.kind = .terminator := by simpa using hKind
  have hReads : Reads ((ts ++ t :: us).length) statement RegularForm EndsStatement := reads_statement
  obtain ⟨after, hRun, hPasses⟩ := (hReads ⟨0, ts ++ t :: us, .endAt 0, []⟩
    ⟨rfl, Nat.le_refl _⟩).complete (List.append_nil _).symm h ⟨nofun, nofun⟩
  have hRest : after.rest = [] := by simpa using hPasses.rest
  have hBeside : (Pairing.followed ts (t :: us) (.endAt 0) hTail).Beside ⟨0, ts, .endAt 0, []⟩
      ⟨0, ts ++ t :: us, .endAt 0, []⟩ := Pairing.beside_followed rfl hTail
  have hEnds := Pairing.ends_statement hBeside
  rw [hRun] at hEnds
  generalize hFirst : run statement ⟨0, ts, .endAt 0, []⟩ = x at hEnds
  cases hEnds with
  | ok beside fits =>
    obtain ⟨front, hFront, -⟩ := beside.rest
    rw [hRest] at hFront
    exact absurd hFront.symm (by simp [Pairing.followed])
  | past atEnd past =>
    obtain ⟨read, hPasses', hForm⟩ := (reads_statement _ ⟨rfl, Nat.le_refl _⟩).sound hFirst
    have hAll : ts = read := by simpa [atEnd] using hPasses'.rest
    exact ⟨past.rest.symm.trans hRest, hAll ▸ hForm⟩

theorem RegularForm.exists_body {ts : List Token} {s : Statement} (h : RegularForm ts s) :
    ∃ body close, ts = body ++ close ∧ (∀ t ∈ body, t.kind ≠ .terminator) ∧ RegularForm body s ∧
      AllTerminators close := by
  by_cases hBody : ∀ t ∈ ts, t.kind ≠ .terminator
  · exact ⟨ts, [], (List.append_nil ts).symm, hBody, h, by simp [AllTerminators]⟩
  · push Not at hBody
    obtain ⟨t, hMem, hKind⟩ := hBody
    obtain ⟨body, us, rfl⟩ := List.append_of_mem hMem
    obtain ⟨rfl, hForm⟩ := h.of_terminator hKind
    refine ⟨body, [t], rfl, fun u hu hTerminator => ?_, hForm, by simpa [AllTerminators] using hKind⟩
    obtain ⟨vs, ws, rfl⟩ := List.append_of_mem hu
    rw [List.append_assoc, List.cons_append] at h
    simpa using (h.of_terminator hTerminator).1

/-- A stretch of tokens and the terminators behind it, as a statement. -/
structure StandsAlone (part : List Token × List Token) (s : Statement) : Prop where
  nonempty : part.1 ≠ []
  body : ∀ t ∈ part.1, t.kind ≠ .terminator
  parsed : Statement.ofTokens part.1 = .ok s
  gap : AllTerminators part.2

/-- The tokens are those of the statements, in their order, and terminators. -/
def Divides (ts : List Token) (statements : Script) : Prop :=
  ∃ gap parts, ts = gap ++ parts.flatMap (fun part => part.1 ++ part.2) ∧ AllTerminators gap ∧
    List.Forall₂ StandsAlone parts statements

theorem standsAlone_of_form {ts us : List Token} {s : Statement} (h : RegularForm ts s)
    (hTokens : ∀ t ∈ ts, t.kind ≠ .endOfInput) (hBody : ∀ t ∈ ts, t.kind ≠ .terminator)
    (hGap : AllTerminators us) : StandsAlone (ts, us) s where
  nonempty := by
    obtain ⟨t, vs, rfl, -⟩ := statementForm_head h.1
    exact List.cons_ne_nil t vs
  body := hBody
  parsed := by
    have hAll : (ofTokens ts).rest = ts :=
      List.takeWhile_eq_self_iff.mpr fun t ht => by simpa [isEnd] using hTokens t ht
    exact ofTokens_of_form (by rwa [hAll])
  gap := hGap

theorem ScriptForm.divides {ts : List Token} {statements : Script} (h : ScriptForm ts statements)
    (hTokens : ∀ t ∈ ts, t.kind ≠ .endOfInput) : Divides ts statements := by
  induction h with
  | @start ts gap => exact ⟨ts, [], by simp, gap, .nil⟩
  | @statement ts us vs statements s front form gap ih =>
    simp only [List.forall_mem_append] at hTokens
    obtain ⟨lead, parts, rfl, hLead, hParts⟩ := ih hTokens.1.1
    obtain ⟨body, close, rfl, hBody, hForm, hClose⟩ := form.exists_body
    have hEnds : ∀ t ∈ body, t.kind ≠ .endOfInput := fun t ht =>
      hTokens.1.2 t (List.mem_append_left close ht)
    refine ⟨lead, parts ++ [(body, close ++ vs)], by simp, hLead, ?_⟩
    exact List.rel_append hParts
      (.cons (standsAlone_of_form hForm hEnds hBody (hClose.append gap)) .nil)

/-! ### Scripts that go on -/

variable {parser : Parser} {bound : Nat}

theorem run_script_statement {t : Token} {us : List Token} (hRest : parser.rest = t :: us)
    (hKind : t.kind ≠ .terminator) :
    parser.run script = parser.run (statement >>= fun s => scriptFrom us.length [s]) := by
  rw [run_script, hRest, List.length_cons, run_scriptFrom_statement hRest hKind]
  rfl

/-- The statements read before a loop make no difference to what it reads. -/
theorem run_scriptFrom_fst (hStop : parser.stop.kind = .endOfInput)
    (hBound : parser.rest.length ≤ bound) (before : Script) :
    (parser.run (scriptFrom bound before)).1 = (parser.run script).1.map (before ++ ·) := by
  have hSame : parser.rest.map (Token.displaced 0) = parser.rest := List.map_id _
  have hLoop := fun bound hBound before => @run_scriptFrom_displaced parser.rest parser.stop 0 parser
    bound _ before hStop hSame.symm rfl rfl hBound
  rw [run_script, hLoop _ hBound, hLoop _ (Nat.le_refl _)]
  cases (run script ⟨0, parser.rest, parser.stop, []⟩).1 <;> rfl

theorem run_script_of_statement {s : Statement} {after : Parser}
    (hStop : parser.stop.kind = .endOfInput) (hRun : parser.run statement = (.ok s, after)) :
    (parser.run script).1 = (after.run script).1.map (s :: ·) := by
  have hReady : Ready parser.rest.length parser := ⟨hStop, Nat.le_refl _⟩
  obtain ⟨_, hPasses, hForm⟩ := (reads_statement parser hReady).sound hRun
  obtain ⟨t, us, rfl, hKeyword⟩ := statementForm_head hForm.1
  have hRest : parser.rest = t :: (us ++ after.rest) := hPasses.rest
  have hKind : t.kind ≠ .terminator := by simp [kind_of_isKeyword hKeyword]
  rw [run_script_statement hRest hKind, run_bind_ok parser hRun,
    run_scriptFrom_fst (by rw [hPasses.stop, hStop]) (by simp)]
  rfl

/-! ### Lists of tokens -/

/-- What the two readers have to do with each other on a list of tokens. -/
structure Consistent (tokens : List Token) : Prop where
  alone : ∀ s, Statement.ofTokens tokens = .ok s → Script.ofTokens tokens = .ok [s]
  divided : ∀ statements, Script.ofTokens tokens = .ok statements →
    Divides (tokens.takeWhile fun t => t.kind != .endOfInput) statements
  refused : ∀ t us e, tokens = t :: us → t.kind ≠ .terminator → t.kind ≠ .endOfInput →
    Statement.ofTokens tokens = .error e → (∀ found, e.fault ≠ .unexpectedToken .endOfInput found) →
    Script.ofTokens tokens = .error e
  /-- A parser that stands at the first token that is left over reads the other statements. -/
  continued : ∀ found i, Statement.ofTokens tokens = .error ⟨.unexpectedToken .endOfInput found, i⟩ →
    ∃ s after, (ofTokens tokens).run statement = (.ok s, after) ∧ after.position = i ∧
      after.rest = (ofTokens tokens).rest.drop i ∧ after.stop = (ofTokens tokens).stop ∧
      Script.ofTokens tokens = (after.run script).1.map (s :: ·)

variable {tokens : List Token}

theorem ofTokens_of_run_statement {s : Statement} {after : Parser}
    (hRun : (ofTokens tokens).run statement = (.ok s, after)) :
    Script.ofTokens tokens = (after.run script).1.map (s :: ·) :=
  run_script_of_statement (ready_ofTokens tokens).stop hRun

theorem script_of_alone {s : Statement} (h : Statement.ofTokens tokens = .ok s) :
    Script.ofTokens tokens = .ok [s] := by
  rw [statement_ofTokens] at h
  split at h
  · cases h
  · rename_i after hRun
    split at h
    · rename_i hRest
      cases h
      rw [ofTokens_of_run_statement hRun, run_script, run_scriptFrom_nil hRest]
      rfl
    · cases h

theorem script_of_refused {t : Token} {us : List Token} {e : ParseError}
    (hTerminator : t.kind ≠ .terminator) (hEnd : t.kind ≠ .endOfInput)
    (h : Statement.ofTokens (t :: us) = .error e)
    (hTrailing : ∀ found, e.fault ≠ .unexpectedToken .endOfInput found) :
    Script.ofTokens (t :: us) = .error e := by
  rw [statement_ofTokens] at h
  split at h
  · rename_i hRun
    cases h
    have hRest : (ofTokens (t :: us)).rest = t :: us.takeWhile (!isEnd ·) := by
      simp [ofTokens, isEnd, hEnd]
    rw [Script.ofTokens, run_script_statement hRest hTerminator, run_bind_error _ hRun]
  · split at h <;> cases h
    exact absurd rfl (hTrailing _)

theorem consistent_ofTokens (tokens : List Token) : Consistent tokens where
  alone _ h := script_of_alone h
  divided statements h := (scriptForm_of_ofTokens h).divides fun t ht => by
    simpa [isEnd] using List.mem_takeWhile_imp ht
  refused := by
    rintro t us e rfl hTerminator hEnd h hTrailing
    exact script_of_refused hTerminator hEnd h hTrailing
  continued := by
    intro found i h
    obtain ⟨s, after, hRun, -, -, rfl⟩ := trailing_iff.mp h
    obtain ⟨ts, hPasses, -⟩ := (reads_statement _ (ready_ofTokens tokens)).sound hRun
    have hPosition : after.position = ts.length := by
      rw [hPasses.position]
      exact Nat.zero_add _
    refine ⟨s, after, hRun, rfl, ?_, hPasses.stop, ofTokens_of_run_statement hRun⟩
    rw [hPasses.rest, hPosition, List.drop_left]

/-- One statement alone, two among terminators, one that is refused, and two without a terminator. -/
theorem consistent_ofTokens_sample :
    let word := fun (kind : TokenKind) (lexeme : String) => (⟨kind, lexeme, 0⟩ : Token)
    let insert := [word .keyword "INSERT", word .keyword "INTO", word .identifier "t",
      word .parenOpen "(", word .identifier "a", word .parenClose ")", word .keyword "VALUES",
      word .parenOpen "(", word .numberLiteral "1", word .parenClose ")"]
    let close := word .terminator ";"
    let s : Statement := .insertInto ⟨"t", ["a"], [[.number "1"]]⟩
    Script.ofTokens (insert ++ [close]) = .ok [s] ∧
      Divides (close :: insert ++ close :: close :: insert) [s, s] ∧
      Script.ofTokens [word .keyword "SELECT", close] =
        .error ⟨.unsupportedStatement "SELECT", 0⟩ ∧
      ∃ after : Parser, after.position = 10 ∧ after.rest = insert ∧
        Script.ofTokens (insert ++ insert) = (after.run script).1.map (s :: ·) := by
  intro word insert close s
  obtain ⟨s', after, hRun, hPosition, hRest, -, hScript⟩ :=
    (consistent_ofTokens (insert ++ insert)).continued (word .keyword "INSERT") 10
      (by decide +kernel)
  have hFirst : ((ofTokens (insert ++ insert)).run statement).1 = .ok s := by decide +kernel
  rw [hRun] at hFirst
  cases hFirst
  exact ⟨(consistent_ofTokens _).alone s (by decide +kernel),
    (consistent_ofTokens (close :: insert ++ close :: close :: insert)).divided [s, s]
      (by decide +kernel),
    (consistent_ofTokens _).refused (word .keyword "SELECT") [close] _ rfl nofun nofun
      (by decide +kernel) nofun,
    after, hPosition, hRest, hScript⟩

end SqlStore.Parser
