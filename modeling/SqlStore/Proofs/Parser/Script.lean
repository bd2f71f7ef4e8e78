import SqlStore.Proofs.Parser.Statement

/-!
# Reading scripts

A script that is accepted is made up of the statements in its order, with any number of terminators
around them, and nothing is left over. Each round of the loop takes a statement and the terminators
before it; the form of what has been read so far is the invariant.
-/
namespace SqlStore.Parser
open Grammar
set_option autoImplicit false

def AllTerminators (ts : List Token) : Prop :=
  ∀ t ∈ ts, t.kind = .terminator

inductive ScriptForm : List Token → Script → Prop where
  | start {ts : List Token} (gap : AllTerminators ts) : ScriptForm ts []
  | statement {ts us vs : List Token} {statements : Script} {s : Statement}
      (front : ScriptForm ts statements) (form : RegularForm us s) (gap : AllTerminators vs) :
      ScriptForm (ts ++ us ++ vs) (statements ++ [s])

theorem AllTerminators.append {ts us : List Token} (h : AllTerminators ts)
    (h' : AllTerminators us) : AllTerminators (ts ++ us) := by
  intro t ht
  rcases List.mem_append.mp ht with ht | ht
  · exact h t ht
  · exact h' t ht

theorem ScriptForm.append {ts us : List Token} {statements : Script}
    (h : ScriptForm ts statements) (hGap : AllTerminators us) :
    ScriptForm (ts ++ us) statements := by
  cases h with
  | start gap => exact .start (gap.append hGap)
  | statement front form gap =>
    rw [List.append_assoc]
    exact .statement front form (gap.append hGap)

theorem regularForm_of_mem {ts : List Token} {statements : Script} (h : ScriptForm ts statements)
    {s : Statement} (hs : s ∈ statements) : ∃ us, us ⊆ ts ∧ RegularForm us s := by
  induction h with
  | start => cases hs
  | @statement ts us vs statements last front form gap ih =>
    rcases List.mem_append.mp hs with hs | hs
    · obtain ⟨ws, hSubset, hForm⟩ := ih hs
      refine ⟨ws, fun t ht => ?_, hForm⟩
      simp [hSubset ht]
    · obtain rfl := List.mem_singleton.mp hs
      exact ⟨us, fun t ht => by simp [ht], form⟩

/-- Whether another statement follows, after the terminators before it. -/
def anotherStatement : ParseM Bool := do
  skipTerminators
  return !(← get).atEnd

variable {limit : Nat} {parser after : Parser}

theorem passes_skipTerminators (hReady : Ready limit parser)
    (h : parser.run skipTerminators = (.ok (), after)) :
    ∃ ts, Passes parser ts after ∧ AllTerminators ts := by
  have hLoop : LoopReads limit (accept .terminator) (fun _ => pure ()) _ _ anyToken :=
    loopReads_stepIf (looks_check (by decide)) (fun _ => reads_pure ()) fun _ _ => trivial
  obtain ⟨ts, hPasses, hRounds⟩ := (hLoop.reads () parser hReady).sound h
  have hAll : AllTerminators ([] ++ ts) := by
    refine Rounds.fold (fun ts _ => AllTerminators ts) ?_ (by simp [AllTerminators]) hRounds
    rintro ts us _ _ hAll ⟨t, _, rfl, hKind, rfl, -⟩
    exact hAll.append (by simpa [AllTerminators] using hKind)
  exact ⟨ts, hPasses, hAll⟩

theorem passes_anotherStatement {yes : Bool} (hReady : Ready limit parser)
    (h : parser.run anotherStatement = (.ok yes, after)) :
    ∃ ts, Passes parser ts after ∧ AllTerminators ts ∧ yes = !after.atEnd := by
  rw [anotherStatement, run_bind] at h
  split at h
  · rename_i skipped hSkip
    obtain ⟨ts, hPasses, hGap⟩ := passes_skipTerminators hReady hSkip
    cases h
    exact ⟨ts, hPasses, hGap, rfl⟩
  · cases h

theorem scriptForm_of_iterate {bound : Nat} {ts : List Token} {statements all : Script}
    (hReady : Ready limit parser) (hBound : parser.rest.length ≤ bound)
    (hRead : ScriptForm ts statements)
    (h : parser.run (iterate anotherStatement (fun statements => return statements ++ [← statement])
      bound statements) = (.ok all, after)) :
    ScriptForm (ts ++ parser.rest) all ∧ after.rest = [] := by
  induction bound generalizing parser ts statements with
  | zero =>
    cases h
    have hRest := List.eq_nil_of_length_eq_zero (Nat.le_zero.mp hBound)
    refine ⟨?_, hRest⟩
    rwa [hRest, List.append_nil]
  | succ bound ih =>
    rw [run_iterate_succ, run_bind] at h
    split at h
    case h_2 => cases h
    case h_1 yes led hMore =>
      obtain ⟨gap, hGap, hTerminators, rfl⟩ := passes_anotherStatement hReady hMore
      have hRead := hRead.append hTerminators
      rw [hGap.rest, ← List.append_assoc]
      by_cases hEnd : led.rest = []
      · rw [atEnd, hEnd] at h
        cases h
        refine ⟨?_, hEnd⟩
        rwa [hEnd, List.append_nil]
      · rw [atEnd, List.isEmpty_eq_false_iff.mpr hEnd, Bool.not_false, if_pos rfl, run_bind] at h
        split at h
        case h_2 => cases h
        case h_1 next stepped hStep =>
          have hLed := hGap.ready hReady
          obtain ⟨us, hPasses, s, hForm, rfl⟩ :=
            ((reads_statement.map (statements ++ [·])) led hLed).sound hStep
          obtain ⟨t, vs, rfl, -⟩ := statementForm_head hForm.1
          have hShorter : stepped.rest.length ≤ bound := by
            rw [hGap.rest, hPasses.rest] at hBound
            simp only [List.length_append, List.length_cons] at hBound
            omega
          have hNext : ScriptForm (ts ++ gap ++ (t :: vs) ++ []) (statements ++ [s]) :=
            .statement hRead hForm (by simp [AllTerminators])
          rw [List.append_nil] at hNext
          rw [hPasses.rest, ← List.append_assoc]
          exact ih (hPasses.ready hLed) hShorter hNext h

theorem scriptForm_of_ofTokens {tokens : List Token} {statements : Script}
    (h : Script.ofTokens tokens = .ok statements) :
    ScriptForm (ofTokens tokens).rest statements := by
  have hRun : (ofTokens tokens).run script = (.ok statements, ((ofTokens tokens).run script).2) :=
    Prod.ext h rfl
  rw [script, run_repeatWhile] at hRun
  have hStart : ScriptForm [] [] := .start (by simp [AllTerminators])
  exact (scriptForm_of_iterate (ready_ofTokens tokens) (Nat.le_refl _) hStart hRun).1

end SqlStore.Parser
