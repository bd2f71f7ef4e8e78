import SqlStore.Proofs.Parser.Reach

/-!
# Columns that repeat a name

A column with the name of an earlier one is read to its end and then refused, and the error points at
its first token. It is the error of the statement, whatever is written after that column.
-/
namespace SqlStore.Parser
open Grammar
set_option autoImplicit false

variable {limit : Nat} {p : Parser} {heading us ts back : List Token} {comma : Token}
  {column : Column}

theorem run_distinctColumn_of_mem (hReady : Ready limit p) {columns : List Column}
    (isColumn : ColumnForm ts column) (hRest : p.rest = ts ++ back)
    (hEnds : EndsColumn (back.headD p.stop)) (isTaken : column.name ∈ columns.map Column.name) :
    ∃ after, p.run (distinctColumn columns) =
      (.error ⟨.duplicateColumn column.name, p.position⟩, after) := by
  obtain ⟨after, hColumn, -⟩ := (reads_column p hReady).complete hRest isColumn hEnds
  have hTaken : columns.any (·.name == column.name) = true := by simpa using isTaken
  refine ⟨after, ?_⟩
  rw [distinctColumn, run_bind_ok p (run_index p), run_bind_ok p hColumn, if_pos hTaken, run_fail]

/-- Behind a comma after other entries. -/
theorem run_statement_of_repeated (hReady : Ready limit p)
    {entries : List Column × List Condition} (isHeading : Heading .create .table heading)
    (isEntries : DistinctEntriesForm us entries) (isComma : comma.kind = .comma)
    (isColumn : ColumnForm ts column) (hRest : p.rest = heading ++ (us ++ comma :: (ts ++ back)))
    (hEnds : EndsColumn (back.headD p.stop)) (isTaken : column.name ∈ entries.1.map Column.name) :
    ∃ after, p.run statement = (.error ⟨.duplicateColumn column.name,
      p.position + (heading ++ (us ++ [comma])).length⟩, after) := by
  obtain ⟨name, vs, ws, type, constraints, rfl, isName, -⟩ := columnForm_iff.mp isColumn
  obtain ⟨m, hPasses, hComes⟩ := comesTo_statement hReady isHeading hRest fun q hReady hRest =>
    comesTo_laterColumn hReady isEntries isComma isName (by simpa using hRest)
  have hRestColumn : m.rest = name :: vs ++ ws ++ back := by
    simpa [hRest] using hPasses.rest.symm
  obtain ⟨after, hError⟩ := run_distinctColumn_of_mem (hPasses.ready hReady) isColumn hRestColumn
    (by rwa [hPasses.stop]) isTaken
  rw [hPasses.position] at hError
  exact ⟨after, hComes.error hError⟩

theorem ofTokens_of_repeated {tokens : List Token} {entries : List Column × List Condition}
    (isHeading : Heading .create .table heading) (isEntries : DistinctEntriesForm us entries)
    (isComma : comma.kind = .comma) (isColumn : ColumnForm ts column)
    (hRest : (ofTokens tokens).rest = heading ++ (us ++ comma :: (ts ++ back)))
    (hEnds : EndsColumn (back.headD (ofTokens tokens).stop))
    (isTaken : column.name ∈ entries.1.map Column.name) :
    Statement.ofTokens tokens =
      .error ⟨.duplicateColumn column.name, (heading ++ (us ++ [comma])).length⟩ := by
  obtain ⟨after, hRun⟩ := run_statement_of_repeated (ready_ofTokens tokens) isHeading isEntries
    isComma isColumn hRest hEnds isTaken
  have hStart : (ofTokens tokens).position = 0 := rfl
  rw [hStart, Nat.zero_add] at hRun
  rw [Statement.ofTokens, run_bind_error _ hRun]

end SqlStore.Parser
